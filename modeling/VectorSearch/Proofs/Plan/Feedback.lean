import Mathlib.Algebra.BigOperators.Intervals
import Mathlib.Algebra.BigOperators.Ring.Finset
import Mathlib.Algebra.Order.Ring.Rat
import Mathlib.Tactic.NormNum
import Mathlib.Tactic.Ring
import VectorSearch.Plan.Planner
/-!
The feedback averages over exact numbers. An average is the sum of its samples, each with a weight
that fades with every later one; the weights are those of a mean, so the average lies among the
samples and follows each of them.
-/

namespace VectorSearch

namespace Feedback

/-! One blend. -/

theorem blend_same (weight value : ℚ) : blend weight value value = value := by
  unfold blend
  ring

theorem blend_mono {weight sample raised average risen : ℚ} (positive : 0 < weight)
    (whole : weight ≤ 1) (samples : sample ≤ raised) (averages : average ≤ risen) :
    blend weight sample average ≤ blend weight raised risen :=
  add_le_add (mul_le_mul_of_nonneg_left samples positive.le)
    (mul_le_mul_of_nonneg_left averages (sub_nonneg.mpr whole))

/-! Faded samples. -/

/-- The first samples of a sequence, the weight of each of them fading with every later one. The
first one of all starts with the full weight. -/
def faded (weight : ℚ) (sample : ℕ → ℚ) (count : ℕ) : ℚ :=
  (1 - weight) ^ (count - 1) * sample 0 +
    ∑ place ∈ Finset.Ico 1 count, weight * (1 - weight) ^ (count - 1 - place) * sample place

variable {weight : ℚ} {sample : ℕ → ℚ} {count : ℕ}

theorem faded_one (weight : ℚ) (sample : ℕ → ℚ) : faded weight sample 1 = sample 0 := by
  simp [faded]

theorem faded_succ (weight : ℚ) (sample : ℕ → ℚ) (some : 0 < count) :
    faded weight sample (count + 1) = blend weight (sample count) (faded weight sample count) := by
  have fades (place : ℕ) (member : place ∈ Finset.Ico 1 count) :
      weight * (1 - weight) ^ (count - place) * sample place =
        (1 - weight) * (weight * (1 - weight) ^ (count - 1 - place) * sample place) := by
    have before := Finset.mem_Ico.mp member
    obtain ⟨later, gap⟩ : ∃ later, count - place = later + 1 := ⟨count - place - 1, by omega⟩
    rw [show count - 1 - place = later by omega, gap, pow_succ]
    ring
  have first : (1 - weight) ^ count = (1 - weight) * (1 - weight) ^ (count - 1) := by
    rw [← pow_succ', Nat.sub_add_cancel some]
  rw [faded, Nat.add_sub_cancel, Finset.sum_Ico_succ_top some, Nat.sub_self, pow_zero, mul_one,
    Finset.sum_congr rfl fades, ← Finset.mul_sum, first, blend, faded]
  ring

theorem faded_const (weight value : ℚ) (some : 0 < count) :
    faded weight (fun _ => value) count = value := by
  induction count, some using Nat.le_induction with
  | base => exact faded_one weight _
  | succ count some ih => rw [faded_succ _ _ some, ih, blend_same]

theorem faded_mono {raised : ℕ → ℚ} (positive : 0 < weight) (whole : weight ≤ 1) (some : 0 < count)
    (samples : ∀ place < count, sample place ≤ raised place) :
    faded weight sample count ≤ faded weight raised count := by
  induction count, some using Nat.le_induction with
  | base =>
      rw [faded_one, faded_one]
      exact samples 0 Nat.zero_lt_one
  | succ count some ih =>
      rw [faded_succ weight sample some, faded_succ weight raised some]
      exact blend_mono positive whole (samples count (Nat.lt_succ_self count))
        (ih fun place before => samples place (Nat.lt_succ_of_lt before))

theorem le_faded {low : ℚ} (positive : 0 < weight) (whole : weight ≤ 1) (some : 0 < count)
    (above : ∀ place < count, low ≤ sample place) : low ≤ faded weight sample count :=
  (faded_const weight low some).symm.trans_le (faded_mono positive whole some above)

theorem faded_le {high : ℚ} (positive : 0 < weight) (whole : weight ≤ 1) (some : 0 < count)
    (below : ∀ place < count, sample place ≤ high) : faded weight sample count ≤ high :=
  (faded_mono positive whole some below).trans_eq (faded_const weight high some)

theorem faded_between (positive : 0 < weight) (whole : weight ≤ 1) (some : 0 < count) :
    (∃ least < count, sample least ≤ faded weight sample count) ∧
      ∃ greatest < count, faded weight sample count ≤ sample greatest := by
  have places : (Finset.range count).Nonempty := ⟨0, Finset.mem_range.mpr some⟩
  obtain ⟨least, leastIn, below⟩ := Finset.exists_min_image _ sample places
  obtain ⟨greatest, greatestIn, above⟩ := Finset.exists_max_image _ sample places
  refine ⟨⟨least, Finset.mem_range.mp leastIn, le_faded positive whole some fun place before => ?_⟩,
    greatest, Finset.mem_range.mp greatestIn, faded_le positive whole some fun place before => ?_⟩
  · exact below place (Finset.mem_range.mpr before)
  · exact above place (Finset.mem_range.mpr before)

/-! The averages of a run. -/

theorem ofObservations_concat {α : Type} [Add α] [Sub α] [Mul α] [OfNat α 0] [OfNat α 1]
    (toNumber : ℕ → α) (weight : α) (searches : List (Observation α)) (last : Observation α) :
    ofObservations toNumber weight (searches ++ [last]) =
      (ofObservations toNumber weight searches).observe toNumber weight last := by
  rw [ofObservations, List.foldl_concat]
  rfl

theorem ofObservations_eq_faded (weight : ℚ) (searches : ℕ → Observation ℚ) (some : 0 < count) :
    ofObservations Nat.cast weight ((List.range count).map searches) =
      { meanLatency := faded weight (fun place => (searches place).latency) count
        meanRecall := faded weight (fun place => (searches place).found) count
        samples := count } := by
  induction count, some using Nat.le_induction with
  | base => rw [faded_one, faded_one]; rfl
  | succ count some ih =>
      have again : count ≠ 0 := Nat.ne_of_gt some
      rw [List.range_succ, List.map_append, List.map_singleton, ofObservations_concat, ih, observe,
        record, if_neg again, faded_succ _ _ some, faded_succ _ _ some]

end Feedback

namespace Planner

theorem feedback_observed (searches : List (Observation Float)) (planner : Planner) :
    (searches.foldl observe planner).feedback =
      searches.foldl (Feedback.observe Count.toFloat planner.settings.smoothing)
        planner.feedback := by
  induction searches generalizing planner with
  | nil => rfl
  | cons first rest ih => exact ih (planner.observe first)

/-- What a planner is told of searches, however they were planned, goes into averages that count
every search. Over exact numbers an average is the sum of its samples with fading weights: it lies
between the least and the greatest of them, so that an average of shares is a share, and raising
samples never lowers it. -/
theorem recorded_averages (weight : ℚ) (positive : 0 < weight) (whole : weight ≤ 1)
    (searches : ℕ → Observation ℚ) (count : ℕ) (some : 0 < count) :
    let feedback := Feedback.ofObservations Nat.cast weight ((List.range count).map searches)
    let latency (place : ℕ) : ℚ := (searches place).latency
    let found (place : ℕ) : ℚ := (searches place).found
    (∀ (settings : PlannerSettings) (told : List (Observation Float)),
      (told.foldl observe (new settings)).feedback =
        Feedback.ofObservations Count.toFloat settings.smoothing told) ∧
    feedback.samples = count ∧
    (feedback.meanLatency = (1 - weight) ^ (count - 1) * latency 0 +
      ∑ place ∈ Finset.Ico 1 count,
        weight * (1 - weight) ^ (count - 1 - place) * latency place) ∧
    (feedback.meanRecall = (1 - weight) ^ (count - 1) * found 0 +
      ∑ place ∈ Finset.Ico 1 count,
        weight * (1 - weight) ^ (count - 1 - place) * found place) ∧
    ((∃ least < count, latency least ≤ feedback.meanLatency) ∧
      ∃ greatest < count, feedback.meanLatency ≤ latency greatest) ∧
    ((∃ least < count, found least ≤ feedback.meanRecall) ∧
      ∃ greatest < count, feedback.meanRecall ≤ found greatest) ∧
    ((∀ place < count, 0 ≤ found place ∧ found place ≤ 1) →
      0 ≤ feedback.meanRecall ∧ feedback.meanRecall ≤ 1) ∧
    ∀ raised : ℕ → Observation ℚ,
      let higher := Feedback.ofObservations Nat.cast weight ((List.range count).map raised)
      ((∀ place < count, (searches place).latency ≤ (raised place).latency) →
        feedback.meanLatency ≤ higher.meanLatency) ∧
      ((∀ place < count, (searches place).found ≤ (raised place).found) →
        feedback.meanRecall ≤ higher.meanRecall) := by
  intro feedback latency found
  have averages : feedback = ⟨Feedback.faded weight latency count,
      Feedback.faded weight found count, count⟩ :=
    Feedback.ofObservations_eq_faded weight searches some
  rw [averages]
  refine ⟨fun settings told => feedback_observed told (new settings), rfl, rfl, rfl,
    Feedback.faded_between positive whole some, Feedback.faded_between positive whole some,
    fun shares => ⟨?_, ?_⟩, fun raised => ?_⟩
  · exact Feedback.le_faded positive whole some fun place before => (shares place before).1
  · exact Feedback.faded_le positive whole some fun place before => (shares place before).2
  · dsimp only
    rw [Feedback.ofObservations_eq_faded weight raised some]
    refine ⟨fun slower => ?_, Feedback.faded_mono positive whole some⟩
    exact Feedback.faded_mono positive whole some fun place before =>
      Nat.cast_le.mpr (slower place before)

theorem recorded_averages_three :
    let searches (place : ℕ) : Observation ℚ :=
      ⟨exactPlan {} {}, 100 * (place + 1), 1 / (place + 1)⟩
    let raised (place : ℕ) : Observation ℚ :=
      if place = 1 then ⟨exactPlan {} {}, 300, 1⟩ else searches place
    let feedback := Feedback.ofObservations Nat.cast (1 / 2) ((List.range 3).map searches)
    let higher := Feedback.ofObservations Nat.cast (1 / 2) ((List.range 3).map raised)
    (0 < (1 / 2 : ℚ) ∧ (1 / 2 : ℚ) ≤ 1 ∧ 0 < 3) ∧
    feedback.samples = 3 ∧ feedback.meanLatency = 225 ∧ feedback.meanRecall = 13 / 24 ∧
    ((∀ place < 3, 0 ≤ (searches place).found ∧ (searches place).found ≤ 1) ∧
      0 ≤ feedback.meanRecall ∧ feedback.meanRecall ≤ 1) ∧
    ((∀ place < 3, (searches place).latency ≤ (raised place).latency) ∧
      feedback.meanLatency ≤ higher.meanLatency) ∧
    ((∀ place < 3, (searches place).found ≤ (raised place).found) ∧
      feedback.meanRecall ≤ higher.meanRecall) := by
  intro searches raised feedback higher
  have positive : 0 < (1 / 2 : ℚ) := by norm_num
  have whole : (1 / 2 : ℚ) ≤ 1 := by norm_num
  obtain ⟨_, samples, latency, recalled, _, _, share, mono⟩ :=
    recorded_averages (1 / 2) positive whole searches 3 (by decide)
  have shares : ∀ place < 3, 0 ≤ (searches place).found ∧ (searches place).found ≤ 1 := by
    decide +kernel
  have slower : ∀ place < 3, (searches place).latency ≤ (raised place).latency := by decide
  have better : ∀ place < 3, (searches place).found ≤ (raised place).found := by decide +kernel
  refine ⟨⟨positive, whole, by decide⟩, samples, latency.trans ?_, recalled.trans ?_,
    ⟨shares, share shares⟩, ⟨slower, (mono raised).1 slower⟩, better, (mono raised).2 better⟩
  · norm_num [Finset.sum_Ico_succ_top, searches]
  · norm_num [Finset.sum_Ico_succ_top, searches]

end Planner

end VectorSearch

import Mathlib.Data.List.Perm.Basic
import Mathlib.Order.OrderDual
import VectorSearch.Proofs.Ordered
import VectorSearch.Proofs.Score
/-!
Ranking only puts hits in another order and cuts the list. Where all scores are defined the order
is the one of a linear scale, and a hit makes the first `count` exactly when fewer than `count`
hits precede it.
-/

namespace VectorSearch.Hit

theorem sort_perm [Host] (hits : List Hit) : (sort hits).Perm hits := Host.sorted_perm hits

theorem mem_of_mem_rank [Host] {hits : List Hit} {count : Nat} {hit : Hit}
    (ranked : hit ∈ rank hits count) : hit ∈ hits :=
  (sort_perm hits).mem_iff.mp (List.mem_of_mem_take ranked)

theorem length_rank [Host] (hits : List Hit) (count : Nat) :
    (rank hits count).length = min count hits.length := by
  rw [rank, List.length_take, (sort_perm hits).length_eq]

theorem sort_nil [Host] : sort [] = [] := List.perm_nil.mp (sort_perm [])

theorem rank_nil [Host] (count : Nat) : rank [] count = [] := by
  rw [rank, sort_nil, List.take_nil]

theorem rank_perm [Host] {hits : List Hit} {count : Nat} (room : hits.length ≤ count) :
    (rank hits count).Perm hits := by
  rw [rank, List.take_of_length_le ((sort_perm hits).length_eq ▸ room)]
  exact sort_perm hits

/-! The order of hits. -/

def standing (hit : Hit) : Score.Placeᵒᵈ ×ₗ ℕ :=
  toLex (OrderDual.toDual (Score.grade hit.score), hit.id)

theorem id_eq_of_standing {first second : Hit} (same : first.standing = second.standing) :
    first.id = second.id :=
  congrArg (fun key => (ofLex key).2) same

theorem precedes_iff {first second : Hit} (firstDefined : first.score.isNaN = false)
    (secondDefined : second.score.isNaN = false) :
    first.precedes second = true ↔ first.standing < second.standing := by
  have higher := Score.lt_iff secondDefined firstDefined
  have lower := Score.lt_iff firstDefined secondDefined
  rw [precedes, Bool.or_eq_true, Bool.and_eq_true, Bool.not_eq_true', decide_eq_true_iff,
    decide_eq_false_iff_not, decide_eq_true_iff, higher, lower, standing, standing,
    Prod.Lex.toLex_lt_toLex, OrderDual.toDual_lt_toDual]
  refine or_congr_right' fun notHigher => and_congr_left' ?_
  rw [OrderDual.toDual_inj]
  exact ⟨fun notLower => le_antisymm (le_of_not_gt notHigher) (le_of_not_gt notLower),
    fun same => same ▸ lt_irrefl _⟩

theorem place_descending {hit : Hit} {placed : List Hit} (defined : hit.score.isNaN = false)
    (allDefined : ∀ other ∈ placed, other.score.isNaN = false)
    (descending : placed.Pairwise fun first second => second.standing ≤ first.standing) :
    (place hit placed).Pairwise fun first second => second.standing ≤ first.standing := by
  induction placed with
  | nil => exact List.pairwise_singleton _ _
  | cons last earlier ih =>
      obtain ⟨behind, rest⟩ := List.pairwise_cons.mp descending
      have ahead := precedes_iff defined (allDefined last (by simp))
      unfold place
      split
      · rename_i before
        refine List.pairwise_cons.mpr ⟨fun other member => ?_,
          ih (fun other member => allDefined other (by simp [member])) rest⟩
        rcases List.mem_cons.mp ((place_perm hit earlier).mem_iff.mp member) with rfl | old
        · exact le_of_lt (ahead.mp before)
        · exact behind other old
      · rename_i notBefore
        rw [ahead, not_lt] at notBefore
        refine List.pairwise_cons.mpr ⟨fun other member => ?_, descending⟩
        rcases List.mem_cons.mp member with rfl | old
        · exact notBefore
        · exact (behind other old).trans notBefore

theorem foldl_place_descending (hits : List Hit) :
    ∀ placed : List Hit, (∀ hit ∈ hits ++ placed, hit.score.isNaN = false) →
      (placed.Pairwise fun first second => second.standing ≤ first.standing) →
      (hits.foldl (fun placed hit => place hit placed) placed).Pairwise
        fun first second => second.standing ≤ first.standing := by
  induction hits with
  | nil => intro placed _ descending; exact descending
  | cons first rest ih =>
      intro placed defined descending
      refine ih _ ?_ (place_descending (defined first (by simp))
        (fun other member => defined other (by simp [member])) descending)
      intro other member
      rcases List.mem_append.mp member with later | moved
      · exact defined other (by simp [later])
      · rcases List.mem_cons.mp ((place_perm first placed).mem_iff.mp moved) with rfl | old
        · exact defined other (by simp)
        · exact defined other (by simp [old])

theorem consistent_of_defined {hits : List Hit}
    (defined : ∀ hit ∈ hits, hit.score.isNaN = false) : Consistent hits := by
  intro first firstIn second secondIn third thirdIn ahead
  rw [precedes_iff (defined first firstIn) (defined second secondIn)] at ahead
  rw [precedes_iff (defined first firstIn) (defined third thirdIn),
    precedes_iff (defined third thirdIn) (defined second secondIn)]
  exact (lt_or_ge first.standing third.standing).imp_right fun behind => behind.trans_lt ahead

theorem sort_of_defined [Host] {hits : List Hit}
    (defined : ∀ hit ∈ hits, hit.score.isNaN = false) : sort hits = insertionSort hits :=
  (Host.sorted_eq hits (.inr (consistent_of_defined defined))).2

/-- A sort breaks down only over more than twenty hits, of which one has an undefined score. -/
theorem trySort_cases [Host] (hits : List Hit) :
    trySort hits = .ok (sort hits) ∨ 20 < hits.length ∧
      (∃ hit ∈ hits, hit.score.isNaN = true) ∧
      trySort hits = .error (.panicked Host.complaint) := by
  cases broken : Host.givesUp hits with
  | false => exact Or.inl (by rw [trySort, broken, if_neg Bool.false_ne_true])
  | true =>
      refine Or.inr ⟨?_, ?_, by rw [trySort, broken, if_pos rfl]⟩
      · by_contra few
        exact absurd (Host.sorted_eq hits (.inl (Nat.le_of_not_lt few))).1 (by simp [broken])
      · by_contra none
        have defined (hit : Hit) (member : hit ∈ hits) : hit.score.isNaN = false :=
          eq_false_of_ne_true fun undefined => none ⟨hit, member, undefined⟩
        exact absurd (Host.sorted_eq hits (.inr (consistent_of_defined defined))).1
          (by simp [broken])

theorem tryRank_cases [Host] (hits : List Hit) (count : Nat) :
    tryRank (.ok hits) count = .ok (rank hits count) ∨ 20 < hits.length ∧
      (∃ hit ∈ hits, hit.score.isNaN = true) ∧
      tryRank (.ok hits) count = .error (.panicked Host.complaint) := by
  cases count with
  | zero => exact Or.inl (congrArg Except.ok List.take_zero.symm)
  | succ count =>
      have ranked : tryRank (.ok hits) (count + 1) = (·.take (count + 1)) <$> trySort hits := rfl
      rw [ranked]
      rcases trySort_cases hits with sorted | ⟨many, undefined, broken⟩
      · exact Or.inl (by rw [sorted]; rfl)
      · exact Or.inr ⟨many, undefined, by rw [broken]; rfl⟩

theorem sort_ascending [Host] {hits : List Hit} (defined : ∀ hit ∈ hits, hit.score.isNaN = false) :
    (sort hits).Pairwise fun first second => first.standing ≤ second.standing := by
  rw [sort_of_defined defined, insertionSort, List.pairwise_reverse]
  exact foldl_place_descending hits [] (by simpa using defined) List.Pairwise.nil

theorem sort_strictly_ascending [Host] {hits : List Hit}
    (defined : ∀ hit ∈ hits, hit.score.isNaN = false) (distinct : (hits.map (·.id)).Nodup) :
    (sort hits).Pairwise fun first second => first.standing < second.standing := by
  have different := List.pairwise_map.mp ((((sort_perm hits).map (·.id)).nodup_iff).mpr distinct)
  exact ((sort_ascending defined).and different).imp fun both =>
    lt_of_le_of_ne both.1 fun same => both.2 (id_eq_of_standing same)

theorem sort_precedes [Host] {hits : List Hit} (defined : ∀ hit ∈ hits, hit.score.isNaN = false)
    (distinct : (hits.map (·.id)).Nodup) :
    (sort hits).Pairwise fun first second => first.precedes second = true := by
  refine (sort_strictly_ascending defined distinct).imp_of_mem fun one two less => ?_
  have proper {hit : Hit} (member : hit ∈ sort hits) :=
    defined hit ((sort_perm hits).mem_iff.mp member)
  exact (precedes_iff (proper one) (proper two)).mpr less

theorem precedes_asymm {first second : Hit} (firstDefined : first.score.isNaN = false)
    (secondDefined : second.score.isNaN = false) (ahead : first.precedes second = true) :
    ¬ second.precedes first = true := by
  rw [precedes_iff firstDefined secondDefined] at ahead
  rw [precedes_iff secondDefined firstDefined]
  exact lt_asymm ahead

theorem mem_rank_iff [Host] {hits : List Hit} {hit : Hit} (member : hit ∈ hits)
    (defined : ∀ hit ∈ hits, hit.score.isNaN = false) (distinct : (hits.map (·.id)).Nodup)
    (count : Nat) :
    hit ∈ rank hits count ↔ hits.countP (fun other => other.precedes hit) < count :=
  Ordered.mem_take_iff (sort_perm hits) (sort_precedes defined distinct)
    (fun first one second two => precedes_asymm (defined first one) (defined second two))
    member count

theorem mem_rank_length_iff [Host] {hits others : List Hit} {hit : Hit}
    (perm : hits.Perm (hit :: others))
    (defined : ∀ hit ∈ hits, hit.score.isNaN = false) (distinct : (hits.map (·.id)).Nodup) :
    hit ∈ rank hits others.length ↔ ∃ other ∈ others, ¬ other.precedes hit = true := by
  have member : hit ∈ hits := perm.mem_iff.mpr List.mem_cons_self
  have self : ¬ hit.precedes hit = true := by
    rw [precedes_iff (defined hit member) (defined hit member)]
    exact lt_irrefl _
  have counted : hits.countP (fun other => other.precedes hit) =
      others.countP (fun other => other.precedes hit) := by
    rw [perm.countP_eq]
    exact List.countP_cons_of_neg self
  rw [mem_rank_iff member defined distinct, counted]
  have all : others.countP (fun other => other.precedes hit) = others.length ↔
      ∀ other ∈ others, other.precedes hit = true := List.countP_eq_length
  constructor
  · intro fewer
    by_contra none
    rw [not_exists] at none
    refine absurd (all.mpr fun other found => ?_) (Nat.ne_of_lt fewer)
    by_contra behind
    exact none other ⟨found, behind⟩
  · rintro ⟨other, found, behind⟩
    exact lt_of_le_of_ne List.countP_le_length fun same => behind (all.mp same other found)

end VectorSearch.Hit

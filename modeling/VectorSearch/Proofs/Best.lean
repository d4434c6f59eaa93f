import Mathlib.Data.List.Perm.Subperm
import VectorSearch.Proofs.Ranking
/-!
The best hits. Of some eligible hits with defined scores, one list only holds the best `count` in
order: ranking finds it, whatever the order in which the hits are given.
-/

namespace VectorSearch.Hit

def RanksAbove (first second : Hit) : Prop :=
  second.score < first.score ∨ (first.score == second.score) = true ∧ first.id < second.id

/-- A list holds the best `count` of the eligible hits in order: a hit is left out only when the
list has no room for it and every hit in the list ranks above it. -/
structure IsBest (eligible : Hit → Prop) (count : Nat) (hits : List Hit) : Prop where
  ordered : hits.Pairwise RanksAbove
  sound : ∀ hit ∈ hits, eligible hit
  few : hits.length ≤ count
  complete : ∀ other, eligible other →
    other ∈ hits ∨ hits.length = count ∧ ∀ hit ∈ hits, hit.RanksAbove other

theorem ranksAbove_iff {first second : Hit} (firstDefined : first.score.isNaN = false)
    (secondDefined : second.score.isNaN = false) :
    first.RanksAbove second ↔ first.standing < second.standing := by
  rw [RanksAbove, Score.lt_iff secondDefined firstDefined, Score.beq_iff firstDefined secondDefined,
    standing, standing, Prod.Lex.toLex_lt_toLex, OrderDual.toDual_lt_toDual, OrderDual.toDual_inj]

theorem RanksAbove.defined {first second : Hit} (above : first.RanksAbove second) :
    first.score.isNaN = false ∧ second.score.isNaN = false := by
  rw [← Bool.not_eq_true, ← Bool.not_eq_true, ← not_or]
  intro undefined
  rcases above with higher | ⟨equal, _⟩
  · exact Score.not_lt_of_isNaN undefined.symm higher
  · exact Bool.false_ne_true ((Score.beq_of_isNaN undefined).symm.trans equal)

theorem RanksAbove.le_score {first second : Hit} (above : first.RanksAbove second) :
    second.score ≤ first.score := by
  obtain ⟨firstDefined, secondDefined⟩ := above.defined
  rw [Score.le_iff secondDefined firstDefined]
  rcases above with higher | ⟨equal, _⟩
  · exact le_of_lt ((Score.lt_iff secondDefined firstDefined).mp higher)
  · exact ((Score.beq_iff firstDefined secondDefined).mp equal).ge

theorem RanksAbove.trans {first second third : Hit} (above : first.RanksAbove second)
    (below : second.RanksAbove third) : first.RanksAbove third := by
  obtain ⟨firstDefined, secondDefined⟩ := above.defined
  have thirdDefined := below.defined.2
  rw [ranksAbove_iff firstDefined thirdDefined]
  exact ((ranksAbove_iff firstDefined secondDefined).mp above).trans
    ((ranksAbove_iff secondDefined thirdDefined).mp below)

theorem RanksAbove.asymm {first second : Hit} (above : first.RanksAbove second) :
    ¬ second.RanksAbove first := by
  obtain ⟨firstDefined, secondDefined⟩ := above.defined
  rw [ranksAbove_iff secondDefined firstDefined]
  exact lt_asymm ((ranksAbove_iff firstDefined secondDefined).mp above)

theorem sort_ranksAbove [Host] {hits : List Hit} (defined : ∀ hit ∈ hits, hit.score.isNaN = false)
    (distinct : (hits.map (·.id)).Nodup) : (sort hits).Pairwise RanksAbove := by
  refine (sort_strictly_ascending defined distinct).imp_of_mem fun one two less => ?_
  have proper {hit : Hit} (member : hit ∈ sort hits) :=
    defined hit ((sort_perm hits).mem_iff.mp member)
  exact (ranksAbove_iff (proper one) (proper two)).mpr less

theorem isBest_rank [Host] {hits : List Hit} (defined : ∀ hit ∈ hits, hit.score.isNaN = false)
    (distinct : (hits.map (·.id)).Nodup) (count : Nat) :
    IsBest (· ∈ hits) count (rank hits count) := by
  have parts : rank hits count ++ (sort hits).drop count = sort hits := List.take_append_drop _ _
  have ordered := sort_ranksAbove defined distinct
  rw [← parts] at ordered
  obtain ⟨front, _, cross⟩ := List.pairwise_append.mp ordered
  refine ⟨front, fun hit => mem_of_mem_rank, ?_, fun other member => ?_⟩
  · rw [length_rank]
    omega
  · rw [← (sort_perm hits).mem_iff, ← parts, List.mem_append] at member
    refine member.imp_right fun left => ⟨?_, fun hit ranked => cross hit ranked other left⟩
    have some := List.length_pos_of_mem left
    rw [List.length_drop, (sort_perm hits).length_eq] at some
    rw [length_rank]
    omega

theorem exists_first_of_mem [Host] {hits : List Hit} {hit : Hit}
    (defined : ∀ hit ∈ hits, hit.score.isNaN = false) (distinct : (hits.map (·.id)).Nodup)
    (member : hit ∈ hits) {count : Nat} (some : 1 ≤ count) :
    ∃ first rest, rank hits count = first :: rest ∧ hit.score ≤ first.score := by
  have best := isBest_rank defined distinct count
  have kept := best.complete hit member
  cases ranked : rank hits count with
  | nil =>
      rw [ranked] at kept
      rcases kept with inside | ⟨full, _⟩
      · exact absurd inside List.not_mem_nil
      · exact absurd full (Nat.ne_of_lt some)
  | cons first rest =>
      rw [ranked] at kept best
      refine ⟨first, rest, rfl, ?_⟩
      rcases kept with inside | ⟨_, above⟩
      · rcases List.mem_cons.mp inside with rfl | behind
        · exact (Score.le_iff (defined hit member) (defined hit member)).mpr (le_refl _)
        · exact ((List.pairwise_cons.mp best.ordered).1 hit behind).le_score
      · exact (above first List.mem_cons_self).le_score

namespace IsBest

variable {eligible : Hit → Prop} {count : Nat} {hits others : List Hit}

theorem congr {admitted : Hit → Prop} (best : IsBest eligible count hits)
    (same : ∀ hit, admitted hit ↔ eligible hit) : IsBest admitted count hits where
  ordered := best.ordered
  sound hit member := (same hit).mpr (best.sound hit member)
  few := best.few
  complete other admittedOther := best.complete other ((same other).mp admittedOther)

theorem extend (best : IsBest eligible count hits) (further : Hit → Prop)
    (next : IsBest (fun hit => hit ∈ hits ∨ further hit) count others) :
    IsBest (fun hit => eligible hit ∨ further hit) count others where
  ordered := next.ordered
  sound hit member := (next.sound hit member).imp_left (best.sound hit)
  few := next.few
  complete other admitted := by
    rcases admitted with eligible | added
    · rcases best.complete other eligible with kept | ⟨full, above⟩
      · exact next.complete other (.inl kept)
      · -- A full list leaves no room for more than its own hits, unless one of them is left out:
        -- then all others rank above that one, and it ranks above the hit.
        by_cases covered : hits ⊆ others
        · have distinct : hits.Nodup := best.ordered.imp fun above same => by
            subst same
            exact above.asymm above
          have same : hits.Perm others :=
            (List.subperm_of_subset distinct covered).perm_of_length_le (full.symm ▸ next.few)
          exact .inr ⟨same.length_eq.symm.trans full, fun hit member =>
            above hit (same.mem_iff.mpr member)⟩
        · obtain ⟨missing, found, absent⟩ : ∃ missing ∈ hits, missing ∉ others := by
            simpa [List.subset_def] using covered
          obtain ⟨crowded, higher⟩ := (next.complete missing (.inl found)).resolve_left absent
          exact .inr ⟨crowded, fun hit member => (higher hit member).trans (above missing found)⟩
    · exact next.complete other (.inr added)

variable (defined : ∀ hit, eligible hit → hit.score.isNaN = false)
include defined

theorem strictly_ascending (best : IsBest eligible count hits) :
    hits.Pairwise fun first second => first.standing < second.standing :=
  best.ordered.imp_of_mem fun one two above =>
    (ranksAbove_iff (defined _ (best.sound _ one)) (defined _ (best.sound _ two))).mp above

theorem nodup (best : IsBest eligible count hits) : hits.Nodup :=
  (best.strictly_ascending defined).imp fun less same => absurd (same ▸ less) (lt_irrefl _)

theorem subset (best : IsBest eligible count hits) (other : IsBest eligible count others) :
    hits ⊆ others := by
  intro hit member
  refine (other.complete hit (best.sound hit member)).resolve_right ?_
  rintro ⟨full, above⟩
  -- A full list without the hit is either part of this one, which is then too long, or has a hit
  -- that this one leaves out: it ranks above the hit, and the hit above it.
  by_cases covered : others ⊆ hits
  · have apart : hit ∉ others := fun found => by
      have itself := (ranksAbove_iff (defined hit (best.sound hit member))
        (defined hit (best.sound hit member))).mp (above hit found)
      exact lt_irrefl _ itself
    have longer := (List.subperm_of_subset (List.nodup_cons.mpr ⟨apart, other.nodup defined⟩)
      (List.cons_subset.mpr ⟨member, covered⟩)).length_le
    have few := best.few
    rw [List.length_cons] at longer
    omega
  · obtain ⟨missing, found, absent⟩ : ∃ missing ∈ others, missing ∉ hits := by
      simpa [List.subset_def] using covered
    have left := (best.complete missing (other.sound missing found)).resolve_left absent
    have hitDefined := defined hit (best.sound hit member)
    have missingDefined := defined missing (other.sound missing found)
    exact lt_asymm ((ranksAbove_iff hitDefined missingDefined).mp (left.2 hit member))
      ((ranksAbove_iff missingDefined hitDefined).mp (above missing found))

theorem eq (best : IsBest eligible count hits) (other : IsBest eligible count others) :
    hits = others := by
  have perm : hits.Perm others :=
    (List.perm_ext_iff_of_nodup (best.nodup defined) (other.nodup defined)).mpr fun _ =>
      ⟨fun member => best.subset defined other member,
        fun member => other.subset defined best member⟩
  exact perm.eq_of_pairwise (fun _ _ _ _ less more => absurd less (lt_asymm more))
    (best.strictly_ascending defined) (other.strictly_ascending defined)

end IsBest

/-! Ranking forgets the order in which the hits were given. -/

theorem rank_eq_of_perm [Host] {hits others : List Hit} (perm : others.Perm hits)
    (defined : ∀ hit ∈ hits, hit.score.isNaN = false) (distinct : (hits.map (·.id)).Nodup)
    (count : Nat) : rank others count = rank hits count := by
  have best := isBest_rank defined distinct count
  have otherBest := isBest_rank (fun hit member => defined hit (perm.mem_iff.mp member))
    ((perm.map (·.id)).nodup_iff.mpr distinct) count
  exact (otherBest.congr fun hit => perm.mem_iff.symm).eq defined best

theorem take_rank [Host] (hits : List Hit) {count larger : Nat} (fewer : count ≤ larger) :
    (rank hits larger).take count = rank hits count := by
  simp [rank, List.take_take, fewer]

end VectorSearch.Hit

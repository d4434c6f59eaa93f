import Mathlib.Data.List.Nodup
import Mathlib.Data.List.Perm.Subperm
import VectorSearch.Proofs.Ranking
/-!
Ranking among hits with undefined scores. Against such a hit only identifiers decide, so a hit may
come before an undefined one, that one before a better hit, and the better hit before the first:
then no order satisfies all three. Ranking is right for all selections of some hits just when no
undefined one stands in this way between two others.
-/

namespace VectorSearch.Hit

def comparable (hits : List Hit) : List Hit := hits.filter fun hit => !hit.score.isNaN

/-- Whether an undefined hit has an identifier between those of a hit and of a better one. -/
def Divides (middle low high : Hit) : Prop :=
  middle.score.isNaN = true ∧ low.id < middle.id ∧ middle.id < high.id ∧ low.score < high.score

theorem mem_comparable {hits : List Hit} {hit : Hit} :
    hit ∈ comparable hits ↔ hit ∈ hits ∧ hit.score.isNaN = false := by
  simp [comparable]

theorem precedes_of_undefined {first second : Hit}
    (undefined : first.score.isNaN = true ∨ second.score.isNaN = true) :
    first.precedes second = true ↔ first.id < second.id := by
  simp [precedes, Score.not_lt_of_isNaN undefined, Score.not_lt_of_isNaN undefined.symm]

theorem lt_of_precedes {first second : Hit} (ahead : first.precedes second = true)
    (after : second.id < first.id) : second.score < first.score := by
  rw [precedes, Bool.or_eq_true, Bool.and_eq_true, decide_eq_true_iff, decide_eq_true_iff] at ahead
  exact ahead.resolve_right fun ids => Nat.lt_asymm after ids.2

theorem not_precedes_of_precedes {first second : Hit} (ahead : first.precedes second = true) :
    ¬ second.precedes first = true := by
  by_cases undefined : first.score.isNaN = true ∨ second.score.isNaN = true
  · rw [precedes_of_undefined undefined] at ahead
    rw [precedes_of_undefined undefined.symm]
    exact Nat.lt_asymm ahead
  · simp only [not_or, Bool.not_eq_true] at undefined
    exact precedes_asymm undefined.1 undefined.2 ahead

theorem precedes_or {first second : Hit} (different : first.id ≠ second.id) :
    first.precedes second = true ∨ second.precedes first = true := by
  by_cases undefined : first.score.isNaN = true ∨ second.score.isNaN = true
  · rw [precedes_of_undefined undefined, precedes_of_undefined undefined.symm]
    exact Nat.lt_or_gt_of_ne different
  · simp only [not_or, Bool.not_eq_true] at undefined
    rw [precedes_iff undefined.1 undefined.2, precedes_iff undefined.2 undefined.1]
    exact lt_or_gt_of_ne fun same => different (id_eq_of_standing same)

def Undivided (hits : List Hit) : Prop :=
  ∀ middle ∈ hits, ∀ low ∈ hits, ∀ high ∈ hits, ¬ middle.Divides low high

theorem Undivided.subset {hits part : List Hit} (whole : Undivided hits) (inside : part ⊆ hits) :
    Undivided part :=
  fun middle middleIn low lowIn high highIn =>
    whole middle (inside middleIn) low (inside lowIn) high (inside highIn)

theorem Undivided.precedes_trans {hits : List Hit} (whole : Undivided hits)
    {first second third : Hit} (firstIn : first ∈ hits) (secondIn : second ∈ hits)
    (thirdIn : third ∈ hits) (different : first.id ≠ third.id)
    (one : first.precedes second = true) (two : second.precedes third = true) :
    first.precedes third = true := by
  by_contra behind
  have back := (precedes_or different).resolve_left behind
  -- The three form a cycle. If one of them is undefined, both of its steps go up in identifiers, so
  -- the step between the other two goes down and is one to a worse hit.
  by_cases firstDefined : first.score.isNaN = true
  · rw [precedes_of_undefined (Or.inl firstDefined)] at one
    rw [precedes_of_undefined (Or.inr firstDefined)] at back
    exact whole first firstIn third thirdIn second secondIn
      ⟨firstDefined, back, one, lt_of_precedes two (Nat.lt_trans back one)⟩
  by_cases secondDefined : second.score.isNaN = true
  · rw [precedes_of_undefined (Or.inr secondDefined)] at one
    rw [precedes_of_undefined (Or.inl secondDefined)] at two
    exact whole second secondIn first firstIn third thirdIn
      ⟨secondDefined, one, two, lt_of_precedes back (Nat.lt_trans one two)⟩
  by_cases thirdDefined : third.score.isNaN = true
  · rw [precedes_of_undefined (Or.inr thirdDefined)] at two
    rw [precedes_of_undefined (Or.inl thirdDefined)] at back
    exact whole third thirdIn second secondIn first firstIn
      ⟨thirdDefined, two, back, lt_of_precedes one (Nat.lt_trans two back)⟩
  rw [Bool.not_eq_true] at firstDefined secondDefined thirdDefined
  rw [precedes_iff firstDefined secondDefined] at one
  rw [precedes_iff secondDefined thirdDefined] at two
  rw [precedes_iff thirdDefined firstDefined] at back
  exact lt_asymm (one.trans two) back

/-! Sorting hits that are undivided. -/

theorem place_ordered {hit : Hit} {placed : List Hit}
    (distinct : ((hit :: placed).map (·.id)).Nodup) (whole : Undivided (hit :: placed))
    (ordered : placed.Pairwise fun later earlier => earlier.precedes later = true) :
    (place hit placed).Pairwise fun later earlier => earlier.precedes later = true := by
  induction placed with
  | nil => exact List.pairwise_singleton _ _
  | cons last earlier ih =>
      obtain ⟨behind, rest⟩ := List.pairwise_cons.mp ordered
      simp only [List.map_cons, List.nodup_cons, List.mem_cons, not_or, List.mem_map,
        not_exists, not_and] at distinct
      obtain ⟨⟨apart, others⟩, lastApart, nodup⟩ := distinct
      unfold place
      split
      · rename_i ahead
        refine List.pairwise_cons.mpr ⟨fun other member => ?_, ih ?_ (whole.subset ?_) rest⟩
        · rcases List.mem_cons.mp ((place_perm hit earlier).mem_iff.mp member) with rfl | old
          · exact ahead
          · exact behind other old
        · simpa using ⟨others, nodup⟩
        · exact List.cons_subset_cons hit (List.subset_cons_self last earlier)
      · rename_i notAhead
        have lastAhead := (precedes_or apart).resolve_left notAhead
        refine List.pairwise_cons.mpr ⟨fun other member => ?_, ordered⟩
        rcases List.mem_cons.mp member with rfl | old
        · exact lastAhead
        · exact whole.precedes_trans (by simp [old]) (by simp) (by simp)
            (fun same => others other old same) (behind other old) lastAhead

theorem foldl_place_ordered (hits : List Hit) :
    ∀ placed : List Hit, ((hits ++ placed).map (·.id)).Nodup → Undivided (hits ++ placed) →
      (placed.Pairwise fun later earlier => earlier.precedes later = true) →
      (hits.foldl (fun placed hit => place hit placed) placed).Pairwise
        fun later earlier => earlier.precedes later = true := by
  induction hits with
  | nil => intro placed _ _ ordered; exact ordered
  | cons first rest ih =>
      intro placed distinct whole ordered
      have moved : (rest ++ place first placed).Perm (first :: rest ++ placed) :=
        ((place_perm first placed).append_left rest).trans List.perm_middle
      have front : (first :: placed).Sublist (first :: rest ++ placed) :=
        (List.sublist_append_right rest placed).cons_cons first
      exact ih _ ((moved.map _).nodup_iff.mpr distinct) (whole.subset moved.subset)
        (place_ordered (distinct.sublist (front.map _)) (whole.subset front.subset) ordered)

theorem Undivided.consistent {hits : List Hit} (whole : Undivided hits)
    (distinct : (hits.map (·.id)).Nodup) : Consistent hits := by
  intro first firstIn second secondIn third thirdIn ahead
  by_cases different : first.id = third.id
  · obtain rfl := List.inj_on_of_nodup_map distinct firstIn thirdIn different
    exact .inr ahead
  refine (precedes_or different).imp_right fun back => ?_
  by_cases other : third.id = second.id
  · obtain rfl := List.inj_on_of_nodup_map distinct thirdIn secondIn other
    exact absurd ahead (not_precedes_of_precedes back)
  · exact whole.precedes_trans thirdIn firstIn secondIn other back ahead

theorem sort_ordered [Host] {hits : List Hit} (distinct : (hits.map (·.id)).Nodup)
    (whole : Undivided hits) :
    (sort hits).Pairwise fun first second => first.precedes second = true := by
  rw [sort, (Host.sorted_eq hits (.inr (whole.consistent distinct))).2, insertionSort,
    List.pairwise_reverse]
  exact foldl_place_ordered hits [] (by simpa using distinct) (by simpa using whole)
    List.Pairwise.nil

theorem comparable_sort [Host] {hits : List Hit} (distinct : (hits.map (·.id)).Nodup)
    (whole : Undivided hits) :
    comparable (sort hits) = sort (comparable hits) := by
  have perm : (comparable (sort hits)).Perm (sort (comparable hits)) :=
    ((sort_perm hits).filter _).trans (sort_perm _).symm
  refine perm.eq_of_pairwise (fun first second _ _ one two => ?_)
    ((sort_ordered distinct whole).filter _) ?_
  · exact absurd two (not_precedes_of_precedes one)
  · exact sort_precedes (fun hit member => (mem_comparable.mp member).2)
      (distinct.sublist (List.filter_sublist.map _))

theorem sort_of_few [Host] {hits : List Hit} (few : hits.length ≤ 20) :
    sort hits = insertionSort hits :=
  (Host.sorted_eq hits (.inl few)).2

theorem sort_of_divides [Host] {middle low high : Hit} (divides : middle.Divides low high) :
    sort [low, middle, high] = [low, middle, high] := by
  obtain ⟨undefined, below, above, _⟩ := divides
  have one : middle.precedes low = false := by
    rw [← Bool.not_eq_true, precedes_of_undefined (Or.inl undefined)]
    exact Nat.lt_asymm below
  have two : high.precedes middle = false := by
    rw [← Bool.not_eq_true, precedes_of_undefined (Or.inr undefined)]
    exact Nat.lt_asymm above
  rw [sort_of_few (by simp)]
  simp [insertionSort, place, one, two]

theorem sort_pair [Host] {low high : Hit} (better : low.score < high.score) :
    sort [low, high] = [high, low] := by
  rw [sort_of_few (by simp)]
  simp [insertionSort, place, precedes, better]

/-- Some hits are ranked right in every selection and every arrangement, whatever undefined hits
are among them, just when no undefined hit has an identifier between those of a hit and of a better
one. -/
theorem comparable_sort_iff [Host] (hits : List Hit) (distinct : (hits.map (·.id)).Nodup) :
    (∀ part, part.Subperm hits → comparable (sort part) = sort (comparable part)) ↔
      ∀ low ∈ hits, ∀ middle ∈ hits, ∀ high ∈ hits, middle.score.isNaN = true →
        low.id < middle.id → middle.id < high.id → ¬ low.score < high.score := by
  constructor
  · intro right low lowIn middle middleIn high highIn undefined below above better
    have selection : [low, middle, high].Subperm hits := by
      refine List.subperm_of_subset ?_ (by simp [lowIn, middleIn, highIn])
      have apart {one two : Hit} (less : one.id < two.id) : one ≠ two :=
        fun same => Nat.ne_of_lt less (congrArg Hit.id same)
      simp [apart below, apart above, apart (below.trans above)]
    have defined {one two : Hit} (less : one.score < two.score) :
        one.score.isNaN = false ∧ two.score.isNaN = false := by
      constructor <;> rw [← Bool.not_eq_true] <;> intro missing
      · exact Score.not_lt_of_isNaN (Or.inl missing) less
      · exact Score.not_lt_of_isNaN (Or.inr missing) less
    have ranked := right _ selection
    have kept : comparable [low, middle, high] = [low, high] := by
      simp only [comparable, List.filter_cons, List.filter_nil, undefined, (defined better).1,
        (defined better).2, Bool.not_true, Bool.not_false, if_true, Bool.false_eq_true, if_false]
    rw [sort_of_divides ⟨undefined, below, above, better⟩, kept, sort_pair better] at ranked
    have same : low = high := (List.cons.inj ranked).1
    exact Nat.ne_of_lt (below.trans above) (congrArg Hit.id same)
  · intro whole part selection
    refine comparable_sort ?_ fun middle middleIn low lowIn high highIn divides => ?_
    · obtain ⟨front, perm, sub⟩ := selection
      exact (perm.map _).nodup_iff.mp (distinct.sublist (sub.map _))
    · obtain ⟨undefined, below, above, better⟩ := divides
      exact whole low (selection.subset lowIn) middle (selection.subset middleIn) high
        (selection.subset highIn) undefined below above better

theorem comparable_sort_iff_three :
    let hits : List Hit := [⟨1, 0.9⟩, ⟨2, 0 / 0⟩, ⟨3, 0.5⟩, ⟨4, 0.75⟩]
    (hits.map (·.id)).Nodup ∧
      ∀ part, part.Subperm hits → comparable (sort part) = sort (comparable part) := by
  intro hits
  have distinct : (hits.map (·.id)).Nodup := by decide
  exact ⟨distinct, (comparable_sort_iff hits distinct).mpr (by decide +kernel)⟩

/-- With an undefined hit between them a hit may be ranked above a better one. -/
theorem not_forall_comparable_sort :
    ¬ ∀ hits : List Hit, (hits.map (·.id)).Nodup →
      comparable (sort hits) = sort (comparable hits) := by
  intro all
  have ranked := all [⟨1, 0.5⟩, ⟨2, 0 / 0⟩, ⟨3, 0.9⟩] (by decide)
  exact absurd ranked (by decide +kernel)

end VectorSearch.Hit

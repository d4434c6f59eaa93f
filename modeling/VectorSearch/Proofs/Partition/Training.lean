import Mathlib.Logic.Function.Iterate
import VectorSearch.Proofs.Partition.Centroids
import VectorSearch.Proofs.Store.Layout
/-!
Training. The first centroids are rows. The rounds that follow repeat one map, and training stops at
the first round after which the centroids have moved little or no row has changed its centroid, or
when the rounds are used up. Where no row has changed its centroid another round changes nothing.
-/

namespace VectorSearch

namespace Embedding

theorem size_of_mem_rows {buffer : Array Float32} {dimension count : Nat}
    (enough : count * dimension ≤ buffer.size) {row : Embedding}
    (member : row ∈ rows buffer dimension count) : row.size = dimension := by
  obtain ⟨position, inside, rfl⟩ := List.mem_map.mp member
  exact size_rowAt ((Blocks.slot_inside (List.mem_range.mp inside) dimension).trans enough)

@[simp] theorem length_rows (buffer : Array Float32) (dimension count : Nat) :
    (rows buffer dimension count).length = count := by
  rw [rows, List.length_map, List.length_range]

theorem size_of_mem_all_rows {buffer : Array Float32} {dimension : Nat} :
    ∀ row ∈ (rows buffer dimension (buffer.size / dimension)).toArray, row.size = dimension :=
  fun _ member => size_of_mem_rows (Nat.div_mul_le_self ..) (List.mem_toArray.mp member)

end Embedding

namespace KMeans

variable {σ : Type} {dimension : Nat} {rows : Array Embedding} {centroids : List Embedding}

/-! The first centroids. -/

theorem getD_mem (positive : 0 < rows.size) (position : Nat) :
    (rows[position]?).getD rows[0] ∈ rows := by
  cases found : rows[position]? with
  | none => exact Array.getElem_mem positive
  | some row => exact Array.mem_of_getElem? found

theorem mem_seedFrom (draws : DrawSource σ) (positive : 0 < rows.size) (missing : Nat) :
    ∀ centroids distances state, (∀ centroid ∈ centroids, centroid ∈ rows) →
      ∀ centroid ∈ seedFrom draws rows positive missing centroids distances state,
        centroid ∈ rows := by
  induction missing with
  | zero => intro centroids distances state drawn; exact drawn
  | succ missing ih =>
      intro centroids distances state drawn
      refine ih _ _ _ fun centroid member => ?_
      rcases List.mem_append.mp member with old | new
      · exact drawn centroid old
      · rw [List.mem_singleton.mp new]
        exact getD_mem positive _

theorem mem_seed (draws : DrawSource σ) (positive : 0 < rows.size) (count : Nat) (state : σ) :
    ∀ centroid ∈ seed draws rows positive count state, centroid ∈ rows := by
  cases count with
  | zero => intro centroid member; exact absurd member List.not_mem_nil
  | succ missing =>
      refine mem_seedFrom draws positive missing _ _ _ fun centroid member => ?_
      rw [List.mem_singleton.mp member]
      exact Array.getElem_mem _

/-! One round. -/

def round (dimension : Nat) (rows : Array Embedding) (centroids : List Embedding) :
    List Embedding :=
  move dimension rows (assign centroids rows) centroids

theorem getElem?_move (dimension : Nat) (rows : Array Embedding) (assignment : Array Nat)
    (centroids : List Embedding) (number : Nat) :
    (move dimension rows assignment centroids)[number]? =
      centroids[number]?.map
        fun centroid => moved dimension rows assignment (centroid, number) := by
  rw [move, List.getElem?_map, List.getElem?_zipIdx, Option.map_map, Nat.zero_add]
  rfl

theorem moved_moved (dimension : Nat) (rows : Array Embedding) (assignment : Array Nat)
    (centroid : Embedding) (number : Nat) :
    moved dimension rows assignment (moved dimension rows assignment (centroid, number), number) =
      moved dimension rows assignment (centroid, number) := by
  unfold moved
  dsimp only
  cases members rows assignment number <;> rfl

theorem move_move (dimension : Nat) (rows : Array Embedding) (assignment : Array Nat)
    (centroids : List Embedding) :
    move dimension rows assignment (move dimension rows assignment centroids) =
      move dimension rows assignment centroids := by
  apply List.ext_getElem?
  intro number
  rw [getElem?_move, getElem?_move, Option.map_map]
  exact congrArg (Option.map · centroids[number]?)
    (funext fun centroid => moved_moved dimension rows assignment centroid number)

theorem members_assign (centroids : List Embedding) (rows : Array Embedding) (number : Nat) :
    members rows (assign centroids rows) number =
      rows.toList.filter fun row => Centroids.nearest centroids row = number := by
  have pairs : (rows.zip (assign centroids rows)).toList =
      rows.toList.map fun row => (row, Centroids.nearest centroids row) := by
    rw [Array.toList_zip, assign, Array.toList_map, List.map_prod_left_eq_zip]
  rw [members, pairs, List.filter_map, List.map_map]
  exact List.map_id _

theorem exists_row_of_moves {number : Nat}
    (moves : (round dimension rows centroids)[number]? ≠ centroids[number]?) :
    ∃ row ∈ rows, Centroids.nearest centroids row = number := by
  by_contra none
  have vacant : members rows (assign centroids rows) number = [] := by
    rw [members_assign, List.filter_eq_nil_iff]
    intro row member
    rw [decide_eq_true_iff]
    exact fun same => none ⟨row, Array.mem_toList_iff.mp member, same⟩
  refine moves ?_
  rw [round, getElem?_move]
  simp only [moved, vacant, Option.map_id']

theorem size_add {total row : Embedding} (sized : total.size = dimension)
    (fits : row.size = dimension) : (Array.zipWith (· + ·) total row).size = dimension := by
  rw [Array.size_zipWith, sized, fits, Nat.min_self]

theorem size_mean {members : List Embedding} (sized : ∀ row ∈ members, row.size = dimension) :
    (mean dimension members).size = dimension := by
  have kept : ∀ total : Embedding, total.size = dimension →
      (members.foldl (fun total row => Array.zipWith (· + ·) total row) total).size =
        dimension := by
    induction members with
    | nil => intro total start; exact start
    | cons first rest ih =>
        intro total start
        exact ih (fun row member => sized row (by simp [member])) _
          (size_add start (sized first (by simp)))
  rw [mean, Array.size_map]
  exact kept _ Array.size_replicate

theorem mem_of_mem_members {assignment : Array Nat} {number : Nat} {row : Embedding}
    (member : row ∈ members rows assignment number) : row ∈ rows := by
  obtain ⟨pair, paired, rfl⟩ := List.mem_map.mp member
  have inside := (List.mem_filter.mp paired).1
  rw [Array.toList_zip] at inside
  exact Array.mem_toList_iff.mp (List.of_mem_zip inside).1

theorem size_moved (wide : ∀ row ∈ rows, row.size = dimension) (assignment : Array Nat)
    {centroid : Embedding} (sized : centroid.size = dimension) (number : Nat) :
    (moved dimension rows assignment (centroid, number)).size = dimension := by
  unfold moved
  split
  · exact sized
  · rename_i first rest some
    exact size_mean fun row member => wide row (mem_of_mem_members (some ▸ member))

theorem size_of_mem_round (wide : ∀ row ∈ rows, row.size = dimension)
    (sized : ∀ centroid ∈ centroids, centroid.size = dimension) :
    ∀ centroid ∈ round dimension rows centroids, centroid.size = dimension := by
  intro centroid member
  obtain ⟨number, found⟩ := List.mem_iff_getElem?.mp member
  rw [round, getElem?_move, Option.map_eq_some_iff] at found
  obtain ⟨before, old, rfl⟩ := found
  exact size_moved wide _ (sized before (List.mem_of_getElem? old)) number

theorem length_round (dimension : Nat) (rows : Array Embedding) (centroids : List Embedding) :
    (round dimension rows centroids).length = centroids.length := length_move ..

theorem lt_of_mem_assign (some : 0 < centroids.length) {number : Nat}
    (member : number ∈ assign centroids rows) : number < centroids.length := by
  obtain ⟨row, _, rfl⟩ := Array.mem_map.mp member
  exact Centroids.nearest_lt centroids row some

/-! All rounds. -/

section

variable (dimension : Nat) (rows : Array Embedding) (start : List Embedding)

def afterRounds (count : Nat) : List Embedding := (round dimension rows)^[count] start

def Unchanged (count : Nat) : Prop :=
  0 < count ∧ assign (afterRounds dimension rows start count) rows =
    assign (afterRounds dimension rows start (count - 1)) rows

def Calm (count : Nat) : Prop :=
  0 < count ∧
    let before := afterRounds dimension rows start (count - 1)
    movement (assign before rows) before (afterRounds dimension rows start count) /
      Count.toFloat32 before.length < tolerance

theorem afterRounds_succ (count : Nat) :
    afterRounds dimension rows start (count + 1) =
      round dimension rows (afterRounds dimension rows start count) :=
  Function.iterate_succ_apply' ..

theorem length_afterRounds (count : Nat) :
    (afterRounds dimension rows start count).length = start.length := by
  induction count with
  | zero => rfl
  | succ count ih => rw [afterRounds_succ, length_round, ih]

variable {dimension rows start}

theorem size_of_mem_afterRounds (wide : ∀ row ∈ rows, row.size = dimension)
    (sized : ∀ centroid ∈ start, centroid.size = dimension) (count : Nat) :
    ∀ centroid ∈ afterRounds dimension rows start count, centroid.size = dimension := by
  induction count with
  | zero => exact sized
  | succ count ih =>
      rw [afterRounds_succ]
      exact size_of_mem_round wide ih

theorem Unchanged.round_eq {count : Nat} (unchanged : Unchanged dimension rows start count) :
    round dimension rows (afterRounds dimension rows start count) =
      afterRounds dimension rows start count := by
  obtain ⟨some, same⟩ := unchanged
  obtain ⟨before, rfl⟩ : ∃ before, count = before + 1 := ⟨count - 1, by omega⟩
  rw [round, same, Nat.add_sub_cancel, afterRounds_succ, round]
  exact move_move ..

def lastAssignment (dimension : Nat) (rows : Array Embedding) (start : List Embedding) :
    Nat → Option (Array Nat)
  | 0 => none
  | count + 1 => some (assign (afterRounds dimension rows start count) rows)

theorem lastAssignment_eq_iff (count : Nat) :
    lastAssignment dimension rows start count =
        some (assign (afterRounds dimension rows start count) rows) ↔
      Unchanged dimension rows start count := by
  cases count with
  | zero => exact iff_of_false (fun same => nomatch same) fun unchanged => nomatch unchanged.1
  | succ count =>
      rw [lastAssignment, Option.some.injEq, eq_comm]
      exact (and_iff_right (Nat.succ_pos count)).symm

/-- Training stops at the first round that gives it a reason to, and after `left` rounds anyway. -/
theorem refineFrom_stops (left : Nat) : ∀ done, ∃ last, done ≤ last ∧ last ≤ done + left ∧
    refineFrom dimension rows left (lastAssignment dimension rows start done)
        (afterRounds dimension rows start done) = afterRounds dimension rows start last ∧
    (last = done + left ∨ Calm dimension rows start last ∨ Unchanged dimension rows start last) ∧
    ∀ earlier, done ≤ earlier → earlier < last → ¬ Unchanged dimension rows start earlier ∧
      (done < earlier → ¬ Calm dimension rows start earlier) := by
  induction left with
  | zero =>
      intro done
      exact ⟨done, Nat.le_refl _, Nat.le_refl _, rfl, Or.inl rfl, fun earlier _ _ => by omega⟩
  | succ left ih =>
      intro done
      have unchanged : lastAssignment dimension rows start done =
          some (assign (afterRounds dimension rows start done) rows) ↔
          Unchanged dimension rows start done := lastAssignment_eq_iff done
      have next := afterRounds_succ dimension rows start done
      have calm : movement (assign (afterRounds dimension rows start done) rows)
            (afterRounds dimension rows start done) (afterRounds dimension rows start (done + 1)) /
            Count.toFloat32 (afterRounds dimension rows start done).length < tolerance ↔
          Calm dimension rows start (done + 1) := (and_iff_right (Nat.succ_pos done)).symm
      rw [next, round] at calm
      unfold refineFrom
      dsimp only
      split
      · rename_i same
        exact ⟨done, Nat.le_refl _, by omega, rfl, Or.inr (Or.inr (unchanged.mp same)),
          fun earlier _ _ => by omega⟩
      · rename_i changed
        split
        · rename_i little
          refine ⟨done + 1, by omega, by omega, next.symm, Or.inr (Or.inl (calm.mp little)),
            fun earlier low high => ?_⟩
          obtain rfl : earlier = done := by omega
          exact ⟨mt unchanged.mpr changed, fun less => by omega⟩
        · rename_i much
          obtain ⟨last, low, high, result, reason, sooner⟩ := ih (done + 1)
          rw [next] at result
          refine ⟨last, by omega, by omega, result, reason.imp_left fun all => by omega,
            fun earlier least less => ?_⟩
          rcases Nat.eq_or_lt_of_le least with rfl | later
          · exact ⟨mt unchanged.mpr changed, fun impossible => by omega⟩
          · refine ⟨(sooner earlier later less).1, fun _ => ?_⟩
            rcases Nat.eq_or_lt_of_le later with rfl | latest
            · exact mt calm.mpr much
            · exact (sooner earlier later less).2 latest

end

theorem length_coordinates (sized : ∀ centroid ∈ centroids, centroid.size = dimension) :
    (centroids.flatMap Array.toList).length = centroids.length * dimension := by
  have lengths : centroids.map (fun centroid => centroid.toList.length) =
      List.replicate centroids.length dimension :=
    List.map_eq_replicate_iff.mpr fun centroid member => sized centroid member
  rw [List.length_flatMap, lengths, List.sum_replicate_nat]

theorem train_of_rows (draws : DrawSource σ) (occupied : 0 < rows.size) (count rounds : Nat)
    (state : σ) :
    train draws dimension rows count rounds state =
      refineFrom dimension rows rounds none (seed draws rows occupied count state) :=
  dif_pos occupied

theorem size_of_mem_train (draws : DrawSource σ) (wide : ∀ row ∈ rows, row.size = dimension)
    (count rounds : Nat) (state : σ) :
    ∀ centroid ∈ train draws dimension rows count rounds state, centroid.size = dimension := by
  by_cases occupied : 0 < rows.size
  · obtain ⟨last, _, _, result, _⟩ :=
      @refineFrom_stops dimension rows (seed draws rows occupied count state) rounds 0
    rw [train_of_rows draws occupied]
    exact result ▸ size_of_mem_afterRounds wide (fun centroid member =>
      wide centroid (mem_seed draws occupied count state centroid member)) last
  · rw [train, dif_neg occupied]
    exact fun centroid member => absurd member List.not_mem_nil

/-- Training on a buffer of rows, whatever is drawn. It gives as many centroids as were asked for.
The first ones are rows. A round assigns rows to centroids that exist and moves only centroids that
have rows. The result is that of the first round that gives a reason to stop, or of the last round
that is allowed; where no row has changed its centroid another round would change nothing. -/
theorem train_rounds (draws : DrawSource σ) (state : σ) (buffer : Array Float32)
    {dimension size count : Nat} (whole : buffer.size = size * dimension) (some : 1 ≤ count)
    (enough : count ≤ size) (rounds : Nat) :
    let rows := (Embedding.rows buffer dimension size).toArray
    let start := seed draws rows (by simp [rows]; omega) count state
    let after := afterRounds dimension rows start
    let centroids := train draws dimension rows count rounds state
    (centroids.length = count ∧ (centroids.flatMap Array.toList).length = count * dimension ∧
      ∀ centroid ∈ centroids, centroid.size = dimension) ∧
    (start.length = count ∧ ∀ centroid ∈ start, centroid ∈ rows) ∧
    (∀ done, (∀ number ∈ assign (after done) rows, number < count) ∧
      ∀ number, (after (done + 1))[number]? ≠ (after done)[number]? →
        ∃ row ∈ rows, Centroids.nearest (after done) row = number) ∧
    ∃ last ≤ rounds, centroids = after last ∧
      (last = rounds ∨ Calm dimension rows start last ∨ Unchanged dimension rows start last) ∧
      (∀ earlier < last, ¬ Calm dimension rows start earlier ∧
        ¬ Unchanged dimension rows start earlier) ∧
      (Unchanged dimension rows start last → round dimension rows centroids = centroids) := by
  intro rows start after centroids
  have occupied : 0 < rows.size := by simp [rows]; omega
  have sized : ∀ row ∈ rows, row.size = dimension := fun row member =>
    Embedding.size_of_mem_rows whole.ge (List.mem_toArray.mp member)
  have drawn : ∀ centroid ∈ start, centroid ∈ rows := mem_seed draws occupied count state
  have length : start.length = count := length_seed draws rows occupied count state
  obtain ⟨last, _, few, result, reason, sooner⟩ :=
    @refineFrom_stops dimension rows start rounds 0
  have trained : centroids = after last :=
    (train_of_rows draws occupied count rounds state).trans result
  have kept := size_of_mem_afterRounds sized fun centroid member =>
    sized centroid (drawn centroid member)
  rw [Nat.zero_add] at few reason
  refine ⟨⟨?_, ?_, trained ▸ kept last⟩, ⟨length, drawn⟩, fun done => ⟨?_, ?_⟩, last, few, trained,
    reason, fun earlier less => ?_, fun unchanged => trained ▸ unchanged.round_eq⟩
  · rw [trained, length_afterRounds, length]
  · rw [trained, length_coordinates (kept last), length_afterRounds, length]
  · intro number member
    have bound := lt_of_mem_assign (by rw [length_afterRounds, length]; omega) member
    rwa [length_afterRounds, length] at bound
  · intro number moves
    have next : after (done + 1) = round dimension rows (after done) := afterRounds_succ ..
    exact exists_row_of_moves (next ▸ moves)
  · obtain ⟨changed, far⟩ := sooner earlier (Nat.zero_le _) less
    exact ⟨fun calm => far calm.1 calm, changed⟩

theorem train_rounds_undefined :
    let buffer : Array Float32 := #[0, 1, 10, 0 / 0]
    let rows := (Embedding.rows buffer 1 4).toArray
    let state := ChaCha.Stream.ofSeed 42
    let start := seed DrawSource.seeded rows (by decide) 2 state
    let after := afterRounds 1 rows start
    let centroids := train DrawSource.seeded 1 rows 2 25 state
    buffer.size = 4 * 1 ∧ 1 ≤ 2 ∧ 2 ≤ 4 ∧ start = [#[10], #[0 / 0]] ∧
    (after 1)[0]? ≠ (after 0)[0]? ∧ (∃ row ∈ rows, Centroids.nearest (after 0) row = 0) ∧
    Unchanged 1 rows start 1 ∧ centroids = after 1 ∧
    (centroids.flatMap Array.toList).length = 2 * 1 ∧ round 1 rows centroids = centroids := by
  intro buffer rows state start after centroids
  obtain ⟨⟨_, coordinates, _⟩, _, moves, last, few, trained, reason, sooner, fixed⟩ :=
    train_rounds DrawSource.seeded state buffer (show buffer.size = 4 * 1 from rfl)
      (show 1 ≤ 2 by decide) (show 2 ≤ 4 by decide) 25
  have drawn : start = [#[10], #[0 / 0]] := by decide +kernel
  have away : (after 1)[0]? ≠ (after 0)[0]? := by
    simp only [after, drawn]
    decide +kernel
  have unchanged : Unchanged 1 rows start 1 := by
    rw [drawn, Unchanged]
    decide +kernel
  have once : last = 1 := by
    have most : ¬ 1 < last := fun later => (sooner 1 later).2 unchanged
    rcases reason with all | calm | unchanged
    · omega
    · have least := calm.1
      omega
    · have least := unchanged.1
      omega
  subst once
  exact ⟨rfl, by decide, by decide, drawn, away, (moves 0).2 0 away, unchanged, trained,
    coordinates, fixed unchanged⟩

end KMeans

end VectorSearch

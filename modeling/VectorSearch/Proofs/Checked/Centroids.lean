import VectorSearch.Checked.Partition
import VectorSearch.Proofs.Checked.Access
import VectorSearch.Proofs.Partition.Training
/-!
Training without a fault. The buffer of centroids is that of the rows it was made from, one block
for each centroid, all through the training; adding up rows in a buffer of sums and overwriting one
centroid after another gives the means that the centroids move to.
-/

namespace VectorSearch

/-! Joined rows. -/

namespace Embedding

variable {rows : List Embedding} {dimension number : Nat} {row : Embedding}

@[simp] theorem join_nil : join [] = #[] := rfl

@[simp] theorem join_append (rows others : List Embedding) :
    join (rows ++ others) = join rows ++ join others := by
  apply Array.ext'
  simp [join]

@[simp] theorem join_singleton (row : Embedding) : join [row] = row := by
  apply Array.ext'
  simp [join]

theorem join_concat (rows : List Embedding) (row : Embedding) :
    join (rows ++ [row]) = join rows ++ row := by
  rw [join_append, join_singleton]

theorem size_join (sized : ∀ row ∈ rows, row.size = dimension) :
    (join rows).size = rows.length * dimension := KMeans.length_coordinates sized

theorem exists_split (found : rows[number]? = some row) :
    ∃ front back, rows = front ++ row :: back ∧ front.length = number := by
  obtain ⟨bound, same⟩ := List.getElem?_eq_some_iff.mp found
  refine ⟨rows.take number, rows.drop (number + 1), ?_, List.length_take_of_le bound.le⟩
  rw [← same, ← List.drop_eq_getElem_cons bound, List.take_append_drop]

theorem join_split (front back : List Embedding) (row : Embedding) :
    join (front ++ row :: back) = join front ++ row ++ join back := by
  rw [← List.singleton_append, ← List.append_assoc, join_append, join_concat]

theorem block_join (sized : ∀ row ∈ rows, row.size = dimension) (found : rows[number]? = some row) :
    number * dimension + dimension ≤ (join rows).size ∧
      (join rows).extract (number * dimension) (number * dimension + dimension) = row := by
  obtain ⟨front, back, rfl, rfl⟩ := exists_split found
  have start : (join front).size = front.length * dimension :=
    size_join fun row member => sized row (List.mem_append_left _ member)
  have fits : row.size = dimension := sized row (by simp)
  rw [join_split, ← start, ← fits]
  have inside : (join front).size + row.size ≤ (join front ++ row).size :=
    (Array.size_append ..).ge
  refine ⟨by simp only [Array.size_append]; omega, ?_⟩
  rw [Blocks.block_append _ inside, Blocks.block_append_size]

theorem splice_join (sized : ∀ row ∈ rows, row.size = dimension) (found : rows[number]? = some row)
    {other : Embedding} (fits : other.size = dimension) :
    Blocks.splice (join rows) (number * dimension) other = join (rows.set number other) := by
  obtain ⟨front, back, rfl, rfl⟩ := exists_split found
  have start : (join front).size = front.length * dimension :=
    size_join fun row member => sized row (List.mem_append_left _ member)
  have same : other.size = row.size := fits.trans (sized row (by simp)).symm
  rw [join_split, ← start, Blocks.splice_append same, List.set_append_right _ _ le_rfl,
    Nat.sub_self, List.set_cons_zero, join_split]

theorem rows_join (sized : ∀ row ∈ rows, row.size = dimension) :
    Embedding.rows (join rows) dimension rows.length = rows := by
  refine List.ext_getElem (length_rows ..) fun number bound inside => ?_
  simp only [Embedding.rows, List.getElem_map, List.getElem_range]
  exact (block_join sized (List.getElem?_eq_getElem inside)).2

theorem slice_join (sized : ∀ row ∈ rows, row.size = dimension) (found : rows[number]? = some row) :
    Checked.slice (join rows) (number * dimension) ((number + 1) * dimension) = .ok row := by
  obtain ⟨inside, same⟩ := block_join sized found
  rw [Nat.succ_mul, Checked.slice_ok inside, same]

theorem overwrite_join (sized : ∀ row ∈ rows, row.size = dimension)
    (found : rows[number]? = some row) {other : Embedding} (fits : other.size = dimension) :
    Checked.overwrite (join rows) (number * dimension) ((number + 1) * dimension) other =
      .ok (join (rows.set number other)) := by
  have inside := (block_join sized found).1
  rw [Nat.succ_mul, ← fits, Checked.overwrite_ok (fits ▸ inside), fits,
    splice_join sized found fits]

theorem pieces_ok {buffer : Array Float32} (positive : 0 < dimension) :
    Checked.pieces buffer dimension =
      .ok (Embedding.rows buffer dimension (buffer.size / dimension)) := by
  simp only [Checked.pieces_ok positive, Nat.succ_mul]
  rfl

theorem pieces_join (positive : 0 < dimension) (sized : ∀ row ∈ rows, row.size = dimension) :
    Checked.pieces (join rows) dimension = .ok rows := by
  rw [pieces_ok positive, size_join sized, Nat.mul_div_cancel _ positive, rows_join sized]

end Embedding

namespace KMeans

open VectorSearch.Embedding (join)

variable {σ : Type} {dimension : Nat} {rows : Array Embedding} {centroids : List Embedding}

/-! The first centroids. -/

theorem reachPosition_lt {target : Float32} {distances : List Float32} :
    ∀ {running position}, reachPosition target distances running = some position →
      position < distances.length := by
  induction distances with
  | nil => intro running position reached; exact nomatch reached
  | cons distance rest ih =>
      intro running position reached
      rw [reachPosition] at reached
      split at reached
      · rw [← Option.some.inj reached]
        exact Nat.succ_pos _
      · obtain ⟨before, found, rfl⟩ := Option.map_eq_some_iff.mp reached
        exact Nat.succ_lt_succ (ih found)

theorem pick_lt (draws : DrawSource σ) {distances : Array Float32}
    (positive : 0 < distances.size) (state : σ) :
    (pick draws distances.size positive distances state).1 < distances.size := by
  unfold pick
  dsimp only
  split
  · exact Fin.isLt _
  · cases reached : reachPosition _ distances.toList 0 with
    | none => exact Nat.sub_lt positive Nat.one_pos
    | some position => exact reachPosition_lt reached

theorem pickChecked_ok (draws : DrawSource σ) {count : Nat} (positive : 0 < count)
    (distances : Array Float32) (state : σ) :
    pickChecked draws count distances state = .ok (pick draws count positive distances state) := by
  unfold pickChecked pick
  dsimp only
  split
  · exact Checked.position_ok draws positive state
  · rfl

theorem seedFromChecked_ok (draws : DrawSource σ) (positive : 0 < rows.size)
    (wide : ∀ row ∈ rows, row.size = dimension) (missing : Nat) :
    ∀ centroids (distances : Array Float32) state, distances.size = rows.size →
      seedFromChecked draws dimension rows missing (join centroids) distances state =
        .ok (join (seedFrom draws rows positive missing centroids distances state)) := by
  induction missing with
  | zero => intro centroids distances state _; rfl
  | succ missing ih =>
      intro centroids distances state sized
      have inside : (pick draws rows.size positive distances state).1 < rows.size := by
        simp only [← sized]
        exact pick_lt draws (sized ▸ positive) state
      have found := Array.getElem?_eq_getElem inside
      have fits := wide _ (Array.getElem_mem inside)
      rw [seedFromChecked, pickChecked_ok draws positive, Checked.ok_bind]
      dsimp only
      rw [Checked.item_ok found, Checked.ok_bind, seedFrom]
      dsimp only
      rw [← fits, Checked.slice_ok (Array.size_append ..).ge, Checked.ok_bind,
        Blocks.block_append_size, ← Embedding.join_concat, found, fits]
      exact ih _ _ _ (by rw [Array.size_zipWith, sized, Nat.min_self])

theorem seedChecked_ok (draws : DrawSource σ) (positive : 0 < rows.size)
    (wide : ∀ row ∈ rows, row.size = dimension) (count : Nat) (state : σ) :
    seedChecked draws dimension rows count state =
      .ok (join (seed draws rows positive count state)) := by
  cases count with
  | zero => rfl
  | succ missing =>
      have inside := (draws.position rows.size positive state).1.isLt
      have found := Array.getElem?_eq_getElem inside
      have fits := wide _ (Array.getElem_mem inside)
      rw [seedChecked, Checked.position_ok draws positive, Checked.ok_bind]
      dsimp only
      rw [Checked.item_ok found, Checked.ok_bind, ← fits, Checked.slice_all, Checked.ok_bind, fits]
      have started := seedFromChecked_ok draws positive wide missing
        [rows[(draws.position rows.size positive state).1]]
        (rows.map fun row =>
          squaredDistance row rows[(draws.position rows.size positive state).1])
        (draws.position rows.size positive state).2 (Array.size_map ..)
      rwa [Embedding.join_singleton] at started

/-! One round. -/

theorem nearestChecked_ok (positive : 0 < dimension)
    (sized : ∀ centroid ∈ centroids, centroid.size = dimension) (row : Embedding) :
    nearestChecked (join centroids) dimension row = .ok (Centroids.nearest centroids row) := by
  rw [nearestChecked, Embedding.pieces_join positive sized]
  rfl

theorem assignChecked_ok (positive : 0 < dimension)
    (sized : ∀ centroid ∈ centroids, centroid.size = dimension) (rows : Array Embedding) :
    assignChecked (join centroids) dimension rows = .ok (assign centroids rows) := by
  rw [assignChecked, mapM_ok fun row _ => nearestChecked_ok positive sized row, Checked.ok_bind,
    assign]
  exact congrArg Except.ok (Array.toList_map .. ▸ Array.toArray_toList)

/-! Sums of rows. -/

def pairedWith (number : Nat) (pairs : List (Embedding × Nat)) : List Embedding :=
  (pairs.filter fun (_, assigned) => assigned = number).map (·.1)

def addAll (total : Embedding) (rows : List Embedding) : Embedding :=
  rows.foldl (fun total row => Array.zipWith (· + ·) total row) total

theorem pairedWith_cons_self (row : Embedding) (number : Nat) (rest : List (Embedding × Nat)) :
    pairedWith number ((row, number) :: rest) = row :: pairedWith number rest := by
  simp [pairedWith]

theorem pairedWith_cons_of_ne {assigned number : Nat} (other : assigned ≠ number) (row : Embedding)
    (rest : List (Embedding × Nat)) :
    pairedWith number ((row, assigned) :: rest) = pairedWith number rest := by
  simp [pairedWith, other]

theorem addRowChecked_ok {sums : List Embedding} {counts : Array Nat} {row total : Embedding}
    {number : Nat} (sized : ∀ total ∈ sums, total.size = dimension)
    (found : sums[number]? = some total) (counted : counts.size = sums.length)
    (fits : row.size = dimension) :
    addRowChecked dimension (join sums, counts) (row, number) =
      .ok (join (sums.set number (Array.zipWith (· + ·) total row)),
        counts.modify number (· + 1)) := by
  obtain ⟨bound, _⟩ := List.getElem?_eq_some_iff.mp found
  have added := size_add (sized total (List.mem_of_getElem? found)) fits
  rw [addRowChecked, Checked.change_ok (counted ▸ bound), Checked.ok_bind,
    Embedding.slice_join sized found, Checked.ok_bind, ← Embedding.splice_join sized found added]
  rfl

theorem foldlM_addRowChecked_ok (pairs : List (Embedding × Nat)) :
    ∀ (sums : List Embedding) (counts : Array Nat), (∀ total ∈ sums, total.size = dimension) →
      counts.size = sums.length →
      (∀ pair ∈ pairs, pair.1.size = dimension ∧ pair.2 < sums.length) →
      ∃ (after : List Embedding) (countsAfter : Array Nat),
        pairs.foldlM (addRowChecked dimension) (join sums, counts) =
          .ok (join after, countsAfter) ∧
        (∀ total ∈ after, total.size = dimension) ∧
        (∀ number, after[number]? =
          sums[number]?.map fun total => addAll total (pairedWith number pairs)) ∧
        ∀ number, countsAfter[number]? =
          counts[number]?.map fun count => count + (pairedWith number pairs).length := by
  induction pairs with
  | nil =>
      intro sums counts sized counted _
      refine ⟨sums, counts, rfl, sized, fun number => ?_, fun number => ?_⟩
      · cases sums[number]? <;> rfl
      · cases counts[number]? <;> rfl
  | cons first rest ih =>
      intro sums counts sized counted inside
      obtain ⟨row, assigned⟩ := first
      obtain ⟨fits, bound⟩ := inside (row, assigned) (by simp)
      obtain ⟨total, found⟩ : ∃ total, sums[assigned]? = some total :=
        ⟨_, List.getElem?_eq_getElem bound⟩
      have added := size_add (sized total (List.mem_of_getElem? found)) fits
      obtain ⟨after, countsAfter, run, sizedAfter, sumsAfter, countsKept⟩ :=
        ih (sums.set assigned (Array.zipWith (· + ·) total row)) (counts.modify assigned (· + 1))
          (fun other member => (List.mem_or_eq_of_mem_set member).elim (sized other)
            fun same => same ▸ added)
          (by rw [Array.size_modify, List.length_set, counted])
          (fun pair member => by
            rw [List.length_set]
            exact inside pair (List.mem_cons_of_mem _ member))
      refine ⟨after, countsAfter, ?_, sizedAfter, fun number => ?_, fun number => ?_⟩
      · rw [List.foldlM_cons, addRowChecked_ok sized found counted fits]
        exact run
      · rw [sumsAfter]
        by_cases same : assigned = number
        · subst same
          rw [List.getElem?_set_self bound, found, pairedWith_cons_self]
          rfl
        · rw [List.getElem?_set_ne same, pairedWith_cons_of_ne same]
      · rw [countsKept, Array.getElem?_modify]
        by_cases same : assigned = number
        · subst same
          rw [if_pos rfl, Option.map_map, pairedWith_cons_self, List.length_cons]
          simp only [Function.comp_def, Nat.add_assoc, Nat.add_comm 1]
        · rw [if_neg same, pairedWith_cons_of_ne same]

def Summed (dimension : Nat) (rows : Array Embedding) (assignment : Array Nat) (count : Nat)
    (totals : Array Float32 × Array Nat) : Prop :=
  ∃ sums : List Embedding, totals.1 = join sums ∧ (∀ total ∈ sums, total.size = dimension) ∧
    ∀ number < count,
      sums[number]? =
        some (addAll (Array.replicate dimension 0) (members rows assignment number)) ∧
      totals.2[number]? = some (members rows assignment number).length

theorem totalsChecked_ok (wide : ∀ row ∈ rows, row.size = dimension) {assignment : Array Nat}
    {count : Nat} (inside : ∀ number ∈ assignment, number < count) :
    ∃ totals, totalsChecked dimension count rows assignment = .ok totals ∧
      Summed dimension rows assignment count totals := by
  have zeros : Array.replicate (count * dimension) (0 : Float32) =
      join (List.replicate count (Array.replicate dimension 0)) := by
    rw [join, List.flatMap_def, List.map_replicate, Array.toList_replicate,
      List.flatten_replicate_replicate, List.toArray_replicate]
  obtain ⟨sums, counts, run, sized, summed, counted⟩ :=
    @foldlM_addRowChecked_ok dimension (rows.zip assignment).toList
      (List.replicate count (Array.replicate dimension 0)) (Array.replicate count 0)
      (fun total member => by rw [List.eq_of_mem_replicate member, Array.size_replicate])
      (by rw [Array.size_replicate, List.length_replicate])
      (fun pair member => by
        rw [Array.toList_zip] at member
        obtain ⟨row, number⟩ := List.of_mem_zip member
        rw [List.length_replicate]
        exact ⟨wide _ (Array.mem_toList_iff.mp row), inside _ (Array.mem_toList_iff.mp number)⟩)
  refine ⟨(join sums, counts), by rw [totalsChecked, zeros, run], sums, rfl, sized,
    fun number bound => ⟨?_, ?_⟩⟩
  · rw [summed, List.getElem?_replicate_of_lt bound]
    rfl
  · rw [counted, Array.getElem?_replicate, if_pos bound, Option.map_some, Nat.zero_add]
    rfl

def travelled (assignment : Array Nat) (total : Float32) (old new : Embedding) (number : Nat) :
    Float32 :=
  if assignment.contains number then total + (squaredDistance new old).sqrt else total

theorem contains_assign (centroids : List Embedding) (rows : Array Embedding) (number : Nat) :
    (assign centroids rows).contains number = true ↔
      members rows (assign centroids rows) number ≠ [] := by
  rw [members_assign, Array.contains_iff_mem, assign, Array.mem_map, Ne, List.filter_eq_nil_iff]
  simp

theorem moveChecked_ok {assignment : Array Nat} {totals : Array Float32 × Array Nat}
    (summed : Summed dimension rows assignment centroids.length totals)
    (named : ∀ number, assignment.contains number = true ↔ members rows assignment number ≠ [])
    (wide : ∀ row ∈ rows, row.size = dimension)
    (sized : ∀ centroid ∈ centroids, centroid.size = dimension) {number : Nat} {old : Embedding}
    (found : centroids[number]? = some old) (total : Float32) :
    let new := moved dimension rows assignment (old, number)
    moveChecked dimension totals (join centroids, total) number =
      .ok (join (centroids.set number new), travelled assignment total old new number) := by
  intro new
  obtain ⟨bound, same⟩ := List.getElem?_eq_some_iff.mp found
  obtain ⟨sums, joined, sizedSums, each⟩ := summed
  obtain ⟨whole, counted⟩ := each number bound
  rw [moveChecked, Checked.item_ok counted, Checked.ok_bind, travelled]
  by_cases vacant : members rows assignment number = []
  · have stays : new = old := by
      simp only [new, moved, vacant]
    have unnamed := mt (named number).mp (not_not.mpr vacant)
    rw [if_pos (by rw [vacant, List.length_nil]), if_neg unnamed, stays, ← same,
      List.set_getElem_self]
    rfl
  · have goes : new = mean dimension (members rows assignment number) := by
      simp only [new, moved]
      split
      · contradiction
      · rename_i split
        rw [split]
    have fits := size_moved wide assignment (sized old (List.mem_of_getElem? found)) number
    have taken : (addAll (Array.replicate dimension 0) (members rows assignment number)).map
        (· / Count.toFloat32 (members rows assignment number).length) = new := goes.symm
    rw [if_neg (mt List.length_eq_zero_iff.mp vacant), if_pos ((named number).mpr vacant), joined,
      Embedding.slice_join sizedSums whole, Checked.ok_bind, Embedding.slice_join sized found,
      Checked.ok_bind, taken, Embedding.overwrite_join sized found fits]
    rfl

theorem foldlM_moveChecked_ok {assignment : Array Nat} {count : Nat}
    {totals : Array Float32 × Array Nat}
    (summed : Summed dimension rows assignment count totals)
    (named : ∀ number, assignment.contains number = true ↔ members rows assignment number ≠ [])
    (wide : ∀ row ∈ rows, row.size = dimension) (rest : List Embedding) :
    ∀ (done : List Embedding) (total : Float32),
      (∀ centroid ∈ done ++ rest, centroid.size = dimension) →
      done.length + rest.length = count →
      let after := (rest.zipIdx done.length).map (moved dimension rows assignment)
      (List.range' done.length rest.length).foldlM (moveChecked dimension totals)
          (join (done ++ rest), total) =
        .ok (join (done ++ after), ((rest.zip after).zipIdx done.length).foldl
          (fun total ((old, new), number) => travelled assignment total old new number) total) := by
  induction rest with
  | nil => intro done total _ _; rfl
  | cons old others ih =>
      intro done total sized length
      obtain ⟨front, back⟩ := List.forall_mem_append.mp sized
      obtain ⟨here, later⟩ := List.forall_mem_cons.mp back
      have found : (done ++ old :: others)[done.length]? = some old := by
        rw [List.getElem?_append_right le_rfl, Nat.sub_self, List.getElem?_cons_zero]
      have whole : (done ++ old :: others).length = count := by
        rw [List.length_append, length]
      have moves := moveChecked_ok (whole ▸ summed) named wide sized found total
      have fits := size_moved wide assignment here done.length
      generalize goes : moved dimension rows assignment (old, done.length) = new at moves fits
      have next := ih (done ++ [new]) (travelled assignment total old new done.length)
        (List.forall_mem_append.mpr
          ⟨List.forall_mem_append.mpr ⟨front, List.forall_mem_singleton.mpr fits⟩, later⟩)
        (by simp only [List.length_append, List.length_cons, List.length_nil] at length ⊢; omega)
      simp only [List.length_append, List.length_singleton, List.append_assoc,
        List.singleton_append] at next
      rw [List.length_cons, List.range'_succ, List.foldlM_cons, moves, Checked.ok_bind,
        List.set_append_right _ _ le_rfl, Nat.sub_self, List.set_cons_zero, next]
      simp only [List.zipIdx_cons, List.map_cons, List.zip_cons_cons, List.foldl_cons, goes]

theorem foldlM_moveChecked_range {assignment : Array Nat} {totals : Array Float32 × Array Nat}
    (summed : Summed dimension rows assignment centroids.length totals)
    (named : ∀ number, assignment.contains number = true ↔ members rows assignment number ≠ [])
    (wide : ∀ row ∈ rows, row.size = dimension)
    (sized : ∀ centroid ∈ centroids, centroid.size = dimension) :
    let next := move dimension rows assignment centroids
    (List.range centroids.length).foldlM (moveChecked dimension totals) (join centroids, 0) =
      .ok (join next, movement assignment centroids next) := by
  rw [List.range_eq_range']
  exact foldlM_moveChecked_ok summed named wide centroids [] 0 sized (Nat.zero_add _)

/-! All rounds. -/

theorem refineChecked_ok (positive : 0 < dimension) (wide : ∀ row ∈ rows, row.size = dimension)
    {count : Nat} (some : 0 < count) (rounds : Nat) :
    ∀ (previous : Option (Array Nat)) (centroids : List Embedding), centroids.length = count →
      (∀ centroid ∈ centroids, centroid.size = dimension) →
      refineChecked dimension count rows rounds previous (join centroids) =
        .ok (join (refineFrom dimension rows rounds previous centroids)) := by
  induction rounds with
  | zero => intro previous centroids _ _; rfl
  | succ rounds ih =>
      intro previous centroids length sized
      subst length
      have inside : ∀ number ∈ assign centroids rows, number < centroids.length :=
        fun number member => lt_of_mem_assign some member
      obtain ⟨totals, run, summed⟩ := totalsChecked_ok wide inside
      have moves := foldlM_moveChecked_range summed (contains_assign centroids rows) wide sized
      rw [refineChecked, assignChecked_ok positive sized, Checked.ok_bind, refineFrom]
      dsimp only
      split
      · rfl
      · rw [run, Checked.ok_bind, moves, Checked.ok_bind]
        dsimp only
        split
        · rfl
        · exact ih _ _ (length_round ..) (size_of_mem_round wide sized)

theorem trainChecked_ok (draws : DrawSource σ) (positive : 0 < dimension) {buffer : Array Float32}
    {count : Nat} (enough : count ≤ buffer.size / dimension) (rounds : Nat) (state : σ) :
    let rows := (Embedding.rows buffer dimension (buffer.size / dimension)).toArray
    trainChecked draws dimension buffer count rounds state =
      .ok (join (train draws dimension rows count rounds state)) := by
  intro rows
  have size : rows.size = buffer.size / dimension := by
    rw [List.size_toArray, Embedding.length_rows]
  have wide : ∀ row ∈ rows, row.size = dimension := Embedding.size_of_mem_all_rows
  rw [trainChecked]
  split
  · rename_i none
    have vacant := length_train draws dimension rows count rounds state (enough.trans size.ge)
    rw [List.eq_nil_of_length_eq_zero (vacant.trans none)]
    rfl
  · rename_i some
    have occupied : 0 < rows.size := by omega
    rw [Embedding.pieces_ok positive, Checked.ok_bind]
    dsimp only
    rw [seedChecked_ok draws occupied wide, Checked.ok_bind, train_of_rows draws occupied]
    exact refineChecked_ok positive wide (Nat.pos_of_ne_zero some) rounds _ _ (length_seed ..)
      fun centroid member => wide centroid (mem_seed draws occupied count state centroid member)

end KMeans

end VectorSearch

import Mathlib.Data.List.Perm.Basic
import VectorSearch.Index.Partition.KMeans
/-!
Training gives as many centroids as were asked for, whatever is drawn; the nearest centroid is one
of them, and the probe order lists each of them once.
-/

namespace VectorSearch

namespace KMeans

variable {σ : Type}

theorem length_seedFrom (draws : DrawSource σ) (rows : Array Embedding) (positive : 0 < rows.size)
    (missing : Nat) : ∀ centroids distances state,
      (seedFrom draws rows positive missing centroids distances state).length =
        centroids.length + missing := by
  induction missing with
  | zero => intro centroids _ _; rfl
  | succ missing ih =>
      intro centroids distances state
      simp only [seedFrom, ih, List.length_append, List.length_singleton]
      omega

theorem length_seed (draws : DrawSource σ) (rows : Array Embedding) (positive : 0 < rows.size)
    (count : Nat) (state : σ) : (seed draws rows positive count state).length = count := by
  cases count with
  | zero => rfl
  | succ missing =>
      simp only [seed, length_seedFrom, List.length_singleton]
      omega

theorem length_move (dimension : Nat) (rows : Array Embedding) (assignment : Array Nat)
    (centroids : List Embedding) :
    (move dimension rows assignment centroids).length = centroids.length := by
  simp [move]

theorem length_refineFrom (dimension : Nat) (rows : Array Embedding) (rounds : Nat) :
    ∀ previous centroids,
      (refineFrom dimension rows rounds previous centroids).length = centroids.length := by
  induction rounds with
  | zero => intro _ _; rfl
  | succ rounds ih =>
      intro previous centroids
      simp only [refineFrom]
      split
      · rfl
      · split
        · exact length_move ..
        · rw [ih, length_move]

theorem length_train (draws : DrawSource σ) (dimension : Nat) (rows : Array Embedding)
    (count rounds : Nat) (state : σ) (enough : count ≤ rows.size) :
    (train draws dimension rows count rounds state).length = count := by
  unfold train
  split
  · rw [length_refineFrom, length_seed]
  · simp only [List.length_nil]
    omega

end KMeans

namespace Centroids

@[simp] theorem length_reaches (centroids : List Embedding) (row : Embedding) :
    (reaches centroids row).length = centroids.length := by
  simp [reaches]

theorem map_centroid_reaches (centroids : List Embedding) (row : Embedding) :
    (reaches centroids row).map (·.centroid) = List.range centroids.length := by
  rw [reaches, List.map_map, List.range_eq_range']
  exact List.zipIdx_map_snd 0 centroids

theorem foldl_nearer_centroid (reaches : List Reach) (bound : Nat)
    (below : ∀ reach ∈ reaches, reach.centroid < bound) :
    ∀ best : Reach, best.centroid < bound → (reaches.foldl Reach.nearer best).centroid < bound := by
  induction reaches with
  | nil => intro best start; exact start
  | cons first rest ih =>
      intro best start
      apply ih fun reach member => below reach (by simp [member])
      unfold Reach.nearer
      split
      · exact below first (by simp)
      · exact start

theorem nearest_lt (centroids : List Embedding) (row : Embedding) (some : 0 < centroids.length) :
    nearest centroids row < centroids.length := by
  refine foldl_nearer_centroid _ _ (fun reach member => ?_) _ some
  have number : reach.centroid ∈ (reaches centroids row).map (·.centroid) :=
    List.mem_map_of_mem member
  rw [map_centroid_reaches] at number
  exact List.mem_range.mp number

theorem probeOrder_perm [Host] (centroids : List Embedding) (row : Embedding) :
    (probeOrder centroids row).Perm (List.range centroids.length) := by
  rw [← map_centroid_reaches centroids row]
  exact (List.mergeSort_perm _ _).map _

@[simp] theorem length_probeOrder [Host] (centroids : List Embedding) (row : Embedding) :
    (probeOrder centroids row).length = centroids.length := by
  rw [(probeOrder_perm centroids row).length_eq, List.length_range]

end Centroids

end VectorSearch

import VectorSearch.Checked.Access
import VectorSearch.Index.Partition.Basic
/-!
The partition index with checked access. The centroids lie in one buffer, one after another, and
training works on that buffer in place: rows are added up in a buffer of sums, and each centroid
that has rows is overwritten by their mean before the next one is looked at.
-/

namespace VectorSearch

def Embedding.join (rows : List Embedding) : Array Float32 := (rows.flatMap Array.toList).toArray

/-! Training. -/

namespace KMeans

variable {σ : Type}

def pickChecked (draws : DrawSource σ) (count : Nat) (distances : Array Float32) (state : σ) :
    Checked (Nat × σ) := do
  let total := sum distances
  if total ≤ negligibleSum then Checked.position draws count state
  else
    let (share, state) := draws.fraction state
    return ((reachPosition (share * total) distances.toList 0).getD (count - 1), state)

def seedFromChecked (draws : DrawSource σ) (dimension : Nat) (rows : Array Embedding) :
    (missing : Nat) → Array Float32 → Array Float32 → σ → Checked (Array Float32)
  | 0, centroids, _, _ => return centroids
  | missing + 1, centroids, distances, state => do
    let (position, state) ← pickChecked draws rows.size distances state
    let row ← Checked.item rows position
    let start := centroids.size
    let centroids := centroids ++ row
    let newest ← Checked.slice centroids start (start + dimension)
    let distances := Array.zipWith
      (fun distance row => smaller distance (squaredDistance row newest)) distances rows
    seedFromChecked draws dimension rows missing centroids distances state

def seedChecked (draws : DrawSource σ) (dimension : Nat) (rows : Array Embedding) (count : Nat)
    (state : σ) : Checked (Array Float32) := do
  match count with
  | 0 => return #[]
  | missing + 1 =>
    let (position, state) ← Checked.position draws rows.size state
    let first ← Checked.item rows position
    let newest ← Checked.slice first 0 dimension
    seedFromChecked draws dimension rows missing first
      (rows.map fun row => squaredDistance row newest) state

def nearestChecked (centroids : Array Float32) (dimension : Nat) (row : Embedding) :
    Checked Nat := do
  return Centroids.nearest (← Checked.pieces centroids dimension) row

def assignChecked (centroids : Array Float32) (dimension : Nat) (rows : Array Embedding) :
    Checked (Array Nat) := do
  return (← rows.toList.mapM (nearestChecked centroids dimension)).toArray

def addRowChecked (dimension : Nat) (totals : Array Float32 × Array Nat)
    (assigned : Embedding × Nat) : Checked (Array Float32 × Array Nat) := do
  let (sums, counts) := totals
  let (row, number) := assigned
  let counts ← Checked.change counts number (· + 1)
  let total ← Checked.slice sums (number * dimension) ((number + 1) * dimension)
  return (Store.overwrite sums (number * dimension) (Array.zipWith (· + ·) total row), counts)

def totalsChecked (dimension count : Nat) (rows : Array Embedding) (assignment : Array Nat) :
    Checked (Array Float32 × Array Nat) :=
  (rows.zip assignment).toList.foldlM (addRowChecked dimension)
    (Array.replicate (count * dimension) 0, Array.replicate count 0)

def moveChecked (dimension : Nat) (totals : Array Float32 × Array Nat)
    (state : Array Float32 × Float32) (number : Nat) : Checked (Array Float32 × Float32) := do
  let (centroids, movement) := state
  let members ← Checked.item totals.2 number
  if members = 0 then return (centroids, movement)
  let total ← Checked.slice totals.1 (number * dimension) ((number + 1) * dimension)
  let mean := total.map (· / Count.toFloat32 members)
  let old ← Checked.slice centroids (number * dimension) ((number + 1) * dimension)
  let centroids ← Checked.overwrite centroids (number * dimension) ((number + 1) * dimension) mean
  return (centroids, movement + (squaredDistance mean old).sqrt)

def refineChecked (dimension count : Nat) (rows : Array Embedding) :
    (rounds : Nat) → Option (Array Nat) → Array Float32 → Checked (Array Float32)
  | 0, _, centroids => return centroids
  | rounds + 1, previous, centroids => do
    let assignment ← assignChecked centroids dimension rows
    if previous = some assignment then return centroids
    let totals ← totalsChecked dimension count rows assignment
    let (next, movement) ←
      (List.range count).foldlM (moveChecked dimension totals) (centroids, 0)
    if movement / Count.toFloat32 count < tolerance then return next
    refineChecked dimension count rows rounds (some assignment) next

def trainChecked (draws : DrawSource σ) (dimension : Nat) (buffer : Array Float32)
    (count rounds : Nat) (state : σ) : Checked (Array Float32) := do
  if count = 0 then return #[]
  let rows := (← Checked.pieces buffer dimension).toArray
  let start ← seedChecked draws dimension rows count state
  refineChecked dimension count rows rounds none start

end KMeans

/-! Calls. -/

namespace PartitionIndex

def trainChecked [Host] (index : PartitionIndex) (buffer : Array Float32) :
    Checked (Except Failure PartitionIndex) := do
  let dimension := index.store.dimension
  if dimension = 0 || buffer.size % dimension ≠ 0 then
    return .error (raggedBuffer buffer.size dimension)
  let count := partitionCount index.settings (buffer.size / dimension)
  let centroids ← KMeans.trainChecked Host.draws dimension buffer count
    index.settings.iterations (Host.drawsFrom (UInt64.ofNat index.settings.seed))
  return .ok { index with
    centroids := Embedding.rows centroids dimension count
    lists := Array.replicate count []
    assignment := ∅
    trained := true }

def unlistChecked (index : PartitionIndex) (id : VectorId) : Checked (Array (List VectorId)) :=
  match index.assignment.get? id with
  | none => return index.lists
  | some previous => Checked.change index.lists previous (·.filter (· ≠ id))

def insertChecked (index : PartitionIndex) (id : VectorId) (row : Embedding) :
    Checked (Except Failure PartitionIndex) := do
  if index.lists.isEmpty then return .error notTrained
  Checked.after (← index.store.upsertChecked id row) fun store => do
    let list ← KMeans.nearestChecked (Embedding.join index.centroids) index.store.dimension row
    let lists ← Checked.change (← index.unlistChecked id) list (· ++ [id])
    return .ok { index with store, lists, assignment := index.assignment.insert id list }

def probeOrderChecked [Host] (index : PartitionIndex) (query : Embedding) : Checked (List Nat) := do
  let dimension := index.store.dimension
  let reaches ← (List.range index.lists.size).mapM fun number => do
    let centroid ← Checked.slice (Embedding.join index.centroids) (number * dimension)
      ((number + 1) * dimension)
    return Reach.mk number (squaredDistance query centroid)
  return (reaches.mergeSort
    (Reach.probedBefore (Centroids.undefinedPlace index.centroids query))).map (·.centroid)

def searchChecked [Host] (index : PartitionIndex) (query : Embedding) (count : Nat)
    (knobs : Knobs) : Checked (Except Failure (List Hit)) :=
  Checked.after (index.store.checkDimension query) fun _ => do
    if count = 0 || index.store.isEmpty then return .ok []
    let order ← index.probeOrderChecked query
    let members ← (order.take (index.probeCount knobs)).mapM (Checked.item index.lists)
    return .ok (Hit.rank (← index.store.hitsOfChecked query members.flatten) count)

end PartitionIndex

end VectorSearch

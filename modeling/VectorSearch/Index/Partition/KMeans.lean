import VectorSearch.Count
import VectorSearch.Index.Partition.Centroids
import VectorSearch.Random.Draws
/-!
Training of centroids. The first centroids are rows drawn at random, rows far from the centroids
before them with a greater chance. Then rounds follow in which every row is assigned to its nearest
centroid and every centroid that has rows moves to their mean, until nothing changes, the movement
is small, or the rounds are used up.
-/

namespace VectorSearch.KMeans

variable {σ : Type}

/-- Sums of distances up to this one give no row a greater chance than another. -/
def negligibleSum : Float32 := Float32.ofBits 0x34000000

def tolerance : Float32 := 1e-4

/-- The smaller of two numbers, where an undefined one yields to the other. -/
def smaller (first second : Float32) : Float32 :=
  if first.isNaN then second
  else if second.isNaN then first
  else if second < first then second else first

def reachPosition (target : Float32) (distances : List Float32) (running : Float32) : Option Nat :=
  match distances with
  | [] => none
  | distance :: rest =>
    if target ≤ running + distance then some 0
    else (reachPosition target rest (running + distance)).map (· + 1)

def pick (draws : DrawSource σ) (count : Nat) (positive : 0 < count) (distances : Array Float32)
    (state : σ) : Nat × σ :=
  let total := sum distances
  if total ≤ negligibleSum then
    let (position, state) := draws.position count positive state
    (position.val, state)
  else
    let (share, state) := draws.fraction state
    ((reachPosition (share * total) distances.toList 0).getD (count - 1), state)

def seedFrom (draws : DrawSource σ) (rows : Array Embedding) (positive : 0 < rows.size) :
    (missing : Nat) → List Embedding → Array Float32 → σ → List Embedding
  | 0, centroids, _, _ => centroids
  | missing + 1, centroids, distances, state =>
    let (position, state) := pick draws rows.size positive distances state
    let centroid := (rows[position]?).getD rows[0]
    let distances := Array.zipWith
      (fun distance row => smaller distance (squaredDistance row centroid)) distances rows
    seedFrom draws rows positive missing (centroids ++ [centroid]) distances state

def seed (draws : DrawSource σ) (rows : Array Embedding) (positive : 0 < rows.size)
    (count : Nat) (state : σ) : List Embedding :=
  match count with
  | 0 => []
  | missing + 1 =>
    let (position, state) := draws.position rows.size positive state
    let centroid := rows[position]
    seedFrom draws rows positive missing [centroid]
      (rows.map fun row => squaredDistance row centroid) state

def assign (centroids : List Embedding) (rows : Array Embedding) : Array Nat :=
  rows.map (Centroids.nearest centroids)

def members (rows : Array Embedding) (assignment : Array Nat) (number : Nat) : List Embedding :=
  ((rows.zip assignment).toList.filter fun (_, assigned) => assigned = number).map (·.1)

def mean (dimension : Nat) (rows : List Embedding) : Embedding :=
  (rows.foldl (fun total row => Array.zipWith (· + ·) total row)
    (Array.replicate dimension (0 : Float32))).map (· / Count.toFloat32 rows.length)

/-- Where a centroid goes: to the mean of its rows, or nowhere without rows. -/
def moved (dimension : Nat) (rows : Array Embedding) (assignment : Array Nat)
    (centroid : Embedding × Nat) : Embedding :=
  match members rows assignment centroid.2 with
  | [] => centroid.1
  | first :: rest => mean dimension (first :: rest)

def move (dimension : Nat) (rows : Array Embedding) (assignment : Array Nat)
    (centroids : List Embedding) : List Embedding :=
  centroids.zipIdx.map (moved dimension rows assignment)

def movement (assignment : Array Nat) (before after : List Embedding) : Float32 :=
  ((before.zip after).zipIdx).foldl
    (fun total ((old, new), number) =>
      if assignment.contains number then total + (squaredDistance new old).sqrt else total) 0

def refineFrom (dimension : Nat) (rows : Array Embedding) :
    (rounds : Nat) → Option (Array Nat) → List Embedding → List Embedding
  | 0, _, centroids => centroids
  | rounds + 1, previous, centroids =>
    let assignment := assign centroids rows
    if previous = some assignment then centroids
    else
      let next := move dimension rows assignment centroids
      if movement assignment centroids next / Count.toFloat32 centroids.length < tolerance then next
      else refineFrom dimension rows rounds (some assignment) next

def train (draws : DrawSource σ) (dimension : Nat) (rows : Array Embedding) (count rounds : Nat)
    (state : σ) : List Embedding :=
  if positive : 0 < rows.size then
    refineFrom dimension rows rounds none (seed draws rows positive count state)
  else []

end VectorSearch.KMeans

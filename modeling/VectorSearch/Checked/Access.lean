import VectorSearch.Count
import VectorSearch.Index.Flat
import VectorSearch.Random.Draws
/-!
Checked access. A program that asks a buffer for a part that it does not have stops on the spot. So
does one that cuts a buffer into pieces of no length, draws a position where there is none or counts
further than a word can, and one that relies on a step that is refused. Each of these is a fault; a
checked program goes on only without one, and what it may refuse to do is part of its result.
-/

namespace VectorSearch

inductive Fault where
  | outOfRange (start stop size : Nat)
  | unlikeLengths (expected got : Nat)
  | noWidth
  | emptyRange
  | tooLarge (value : Nat)
  | refused (failure : Failure)

abbrev Checked := Except Fault

namespace Checked

variable {α β σ : Type}

def slice (buffer : Array α) (start stop : Nat) : Checked (Array α) :=
  if start ≤ stop ∧ stop ≤ buffer.size then .ok (buffer.extract start stop)
  else .error (.outOfRange start stop buffer.size)

def item (buffer : Array α) (position : Nat) : Checked α :=
  match buffer[position]? with
  | some found => .ok found
  | none => .error (.outOfRange position (position + 1) buffer.size)

def change (buffer : Array α) (position : Nat) (make : α → α) : Checked (Array α) := do
  let _ ← item buffer position
  return buffer.modify position make

def overwrite (buffer : Array α) (start stop : Nat) (block : Array α) : Checked (Array α) := do
  let part ← slice buffer start stop
  if block.size = part.size then
    return buffer.extract 0 start ++ block ++ buffer.extract stop buffer.size
  else throw (.unlikeLengths part.size block.size)

/-- A buffer cut into pieces, without what is left over at its end. -/
def pieces (buffer : Array α) (width : Nat) : Checked (List (Array α)) :=
  if width = 0 then .error .noWidth
  else
    .ok ((List.range (buffer.size / width)).map fun number =>
      buffer.extract (number * width) ((number + 1) * width))

def position (draws : DrawSource σ) (bound : Nat) (state : σ) : Checked (Nat × σ) :=
  if positive : 0 < bound then
    let (position, state) := draws.position bound positive state
    .ok (position.val, state)
  else .error .emptyRange

def product (first second : Nat) : Checked Nat :=
  if first * second ≤ Count.limit then .ok (first * second)
  else .error (.tooLarge (first * second))

/-- The result of a step on which the program relies. -/
def rely (outcome : Except Failure α) : Checked α :=
  match outcome with
  | .ok value => .ok value
  | .error failure => .error (.refused failure)

def after (outcome : Except Failure α) (next : α → Checked (Except Failure β)) :
    Checked (Except Failure β) :=
  match outcome with
  | .ok value => next value
  | .error failure => .ok (.error failure)

end Checked

/-! The store. -/

namespace Store

def getChecked (store : Store) (id : VectorId) : Checked (Option Embedding) := do
  match store.offsets.get? id with
  | none => return none
  | some offset => return some (← Checked.slice store.data offset (offset + store.dimension))

def entriesChecked (store : Store) : Checked (List (VectorId × Embedding)) :=
  store.offsets.toList.mapM fun (id, offset) => do
    return (id, ← Checked.slice store.data offset (offset + store.dimension))

def putChecked (store : Store) (id : VectorId) (row : Embedding) : Checked Store := do
  match store.offsets.get? id with
  | some offset =>
    let data ← Checked.overwrite store.data offset (offset + store.dimension) row
    return { store with data }
  | none =>
    return { store with
      data := store.data ++ row
      offsets := store.offsets.insert id store.data.size }

def upsertChecked (store : Store) (id : VectorId) (row : Embedding) :
    Checked (Except Failure Store) :=
  Checked.after (store.checkDimension row) fun _ => do
    return .ok (← store.putChecked id row)

def scoreChecked (store : Store) (query : Embedding) (id : VectorId) :
    Checked (Option Float32) := do
  return (← store.getChecked id).map (VectorSearch.similarity store.metric query)

def hitsOfChecked (store : Store) (query : Embedding) (ids : List VectorId) :
    Checked (List Hit) := do
  let found ← ids.mapM fun id => do return (← store.scoreChecked query id).map (Hit.mk id)
  return found.filterMap fun hit => hit

end Store

/-! The exact index. -/

namespace FlatIndex

def insertChecked (index : FlatIndex) (id : VectorId) (row : Embedding) :
    Checked (Except Failure FlatIndex) := do
  Checked.after (← index.store.upsertChecked id row) fun store => return .ok ⟨store⟩

def searchChecked [Host] (index : FlatIndex) (query : Embedding) (count : Nat) :
    Checked (Except Failure (List Hit)) :=
  Checked.after (index.store.checkDimension query) fun _ => do
    if count = 0 || index.store.isEmpty then return .ok []
    let entries ← index.store.entriesChecked
    let hits := entries.map fun (id, row) =>
      ⟨id, VectorSearch.similarity index.store.metric query row⟩
    return .ok (Hit.rank hits count)

end FlatIndex

end VectorSearch

import VectorSearch.Index.InPlace
/-!
Index builders. A builder makes an unfinished index, trains it if that is needed, adds rows to it
and seals it. Any of these may be refused, and a builder may also break down altogether.
-/

namespace VectorSearch

abbrev BuildError := Stop

/-- What a migration's record tells about a builder that stopped. A failed build is told in the
builder's own words. -/
def Stop.message : Stop → String
  | refused (.buildFailed text) => text
  | refused failure => failure.message
  | panicked words => "index builder panicked: " ++ words.getD "(non-string panic)"

abbrev Built (α : Type) := Except BuildError α

structure Builder (β : Type) where
  create : (dimension : Nat) → IndexSettings → Built β
  /-- Whether the work must be trained before rows are added. It is asked right after creation, so
  that a builder which breaks down over this question is one whose creation breaks down. -/
  needsTraining : β → Bool
  train : β → Array Float32 → Built β
  insert : β → VectorId → Embedding → Built β
  finish : β → Built Index

def Builder.standard [Host] (kind : IndexKind) : Builder Index where
  create dimension settings := .ok (.empty kind dimension settings)
  needsTraining := Index.needsTraining
  train index buffer := (Index.trainInPlace buffer).outcome index
  insert index id row := (Index.insertInPlace id row).outcome index
  finish index := .ok index

structure Construction (β : Type) where
  builder : Builder β
  work : β

namespace Construction

variable {β : Type}

def needsTraining (construction : Construction β) : Bool :=
  construction.builder.needsTraining construction.work

def train (construction : Construction β) (buffer : Array Float32) : Built (Construction β) :=
  (construction.builder.train construction.work buffer).map
    fun work => { construction with work }

def insert (construction : Construction β) (id : VectorId) (row : Embedding) :
    Built (Construction β) :=
  (construction.builder.insert construction.work id row).map
    fun work => { construction with work }

def insertAll (construction : Construction β) (first : VectorId) :
    List Embedding → Built (Construction β)
  | [] => .ok construction
  | row :: rows =>
    match construction.insert first row with
    | .ok next => next.insertAll (first + 1) rows
    | .error error => .error error

def finish (construction : Construction β) : Built Index :=
  construction.builder.finish construction.work

end Construction

structure Registry (β : Type) where
  builder? : IndexKind → Option (Builder β)

namespace Registry

variable {β : Type}

def empty : Registry β := ⟨fun _ => none⟩

def standardFor [Host] (kinds : List IndexKind) : Registry Index where
  builder? kind := if kind ∈ kinds then some (.standard kind) else none

def standard [Host] : Registry Index := standardFor IndexKind.all

def register (registry : Registry β) (kind : IndexKind) (builder : Builder β) : Registry β where
  builder? other := if other = kind then some builder else registry.builder? other

def contains (registry : Registry β) (kind : IndexKind) : Bool := (registry.builder? kind).isSome

def unregister (registry : Registry β) (kind : IndexKind) : Bool × Registry β :=
  (registry.contains kind,
    ⟨fun other => if other = kind then none else registry.builder? other⟩)

def kinds (registry : Registry β) : List IndexKind := IndexKind.all.filter registry.contains

def listing (registry : Registry β) : String :=
  "BuilderRegistry \x7b types: [" ++
    String.intercalate ", " (registry.kinds.map IndexKind.label) ++ "] \x7d"

def create (registry : Registry β) (kind : IndexKind) (dimension : Nat)
    (settings : IndexSettings) : Built (Construction β) :=
  match registry.builder? kind with
  | some builder => (builder.create dimension settings).map fun work => { builder, work }
  | none =>
    .error (.refused (.buildFailed ("no builder registered for index type " ++ kind.name)))

end Registry

end VectorSearch

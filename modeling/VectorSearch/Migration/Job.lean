import VectorSearch.Checked.Access
import VectorSearch.IndexKind
import VectorSearch.Settings.Basic
/-!
What a migration is asked to do. A request is checked before any work begins, so that the worker
finds as many whole rows as the request says.
-/

namespace VectorSearch

structure Job where
  buffer : Option (Array Float32)
  count : Nat
  dimension : Nat
  kind : IndexKind
  settings : IndexSettings
  /-- The number of rows between two reports of progress, or zero for the default. -/
  batch : Nat

namespace Job

def check (job : Job) : Except Failure Unit :=
  if job.count = 0 then .ok ()
  else
    match job.buffer with
    | none =>
      .error (.invalidArgument
        ("no vector data supplied for " ++ toString job.count ++ " vectors"))
    | some buffer =>
      let needed := job.count * job.dimension
      if job.dimension = 0 then
        .error (.invalidArgument "dimension must be positive when migrating vectors")
      else if Count.limit < needed then
        .error (.invalidArgument (toString job.count ++ " vectors of dimension " ++
          toString job.dimension ++ " overflows"))
      else if buffer.size < needed then
        .error (.invalidArgument ("vector buffer holds " ++ toString buffer.size ++
          " floats, need " ++ toString needed))
      else .ok ()

def source (job : Job) : Array Float32 := job.buffer.getD #[]

def size (job : Job) : Nat := min (job.count * job.dimension) job.source.size

def content (job : Job) : Array Float32 := job.source.extract 0 job.size

def rowCount (job : Job) : Nat := job.size / max job.dimension 1

def row (job : Job) (position : Nat) : Embedding :=
  Embedding.rowAt job.source job.dimension (position * job.dimension)

def reportEvery (job : Job) : Nat :=
  if job.batch = 0 then ({} : MigrationSettings).batchSize else job.batch

/-! The same rows with checked access: the worker counts their numbers once more, takes that part of
the buffer and cuts it into rows. -/

/-- The rows of the request, one behind another. A request for no rows leaves its buffer alone. -/
def contentChecked (job : Job) : Checked (Array Float32) := do
  match job.buffer with
  | none => return #[]
  | some buffer =>
    if job.count = 0 then return #[]
    Checked.slice buffer 0 (← Checked.product job.count job.dimension)

def rowsChecked (job : Job) : Checked (List Embedding) := do
  Checked.pieces (← job.contentChecked) (max job.dimension 1)

end Job

end VectorSearch

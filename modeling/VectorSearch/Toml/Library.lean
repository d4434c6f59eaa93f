import VectorSearch.Count
import VectorSearch.Toml.Block
/-!
What a library for TOML supplies: a reader and a writer of documents, and the ways in which values
are taken for fields. Settings use no other; the one that stands here is a library of its own.
-/

namespace VectorSearch.Toml

/-- A value as it is handed over, without a trace of how it was written. -/
inductive Data where
  | scalar (value : Scalar)
  | array (items : List Data)
  | table (entries : List (String × Data))

abbrev Entries := List (String × Data)

/-! Documents to be written: tables of scalars, and such tables inside tables. -/

structure Leaf where
  key : String
  scalars : List (String × Scalar)

structure Group where
  key : String
  scalars : List (String × Scalar)
  leaves : List Leaf

def entriesOf (scalars : List (String × Scalar)) : Entries :=
  scalars.map fun (key, scalar) => (key, .scalar scalar)

def Leaf.data (leaf : Leaf) : Data := .table (entriesOf leaf.scalars)

def Group.entries (group : Group) : Entries :=
  entriesOf group.scalars ++ group.leaves.map fun leaf => (leaf.key, leaf.data)

def Group.data (group : Group) : Data := .table group.entries

def documentOf (groups : List Group) : Entries := groups.map fun group => (group.key, group.data)

def Group.blocks (group : Group) : List Block :=
  ⟨⟨[], group.key⟩, group.scalars⟩ ::
    group.leaves.map fun leaf => ⟨⟨[group.key], leaf.key⟩, leaf.scalars⟩

/-- A reader and a writer of TOML. They may say why they refuse a document. -/
class Library where
  read : (text : String) → Except (Option String) Entries
  write : List Group → Except (Option String) String
  fields? : (names : List String) → Data → Option Entries
  count? : Data → Option Nat
  real? : Data → Option Float
  variant? : Data → Option String
  mismatch : (text : String) → Option String

/-! The data of values. -/

mutual

def Value.data : Value → Data
  | .scalar value => .scalar value
  | .array items => .array (dataOfItems items)
  | .table _ entries => .table (dataOfEntries entries)
  | .tables earlier last => .array (dataOfTables earlier ++ [.table (dataOfEntries last)])

def dataOfItems : List Value → List Data
  | [] => []
  | item :: items => item.data :: dataOfItems items

def dataOfEntries : List (String × Value) → Entries
  | [] => []
  | (key, value) :: entries => (key, value.data) :: dataOfEntries entries

def dataOfTables : List (List (String × Value)) → List Data
  | [] => []
  | entries :: tables => .table (dataOfEntries entries) :: dataOfTables tables

end

namespace Data

/-- A section is a table, or an array of its values in the order of their names. A date or a time
is a section without entries. -/
def fields? (names : List String) : Data → Option Entries
  | table entries => some entries
  | array items => some (names.zip items)
  | scalar (.moment _) => some []
  | scalar _ => none

def count? : Data → Option Nat
  | scalar (.whole value) => if 0 ≤ value then some value.toNat else none
  | _ => none

def real? : Data → Option Float
  | scalar (.real value) => some value
  | scalar (.whole value) =>
    let size := Count.toFloat value.natAbs
    some (if value < 0 then -size else size)
  | _ => none

def isEmpty : Data → Bool
  | array [] | table [] => true
  | _ => false

/-- A case is given by its name, or by a table with nothing but an empty value under its name. -/
def variant? : Data → Option String
  | scalar (.text name) => some name
  | table [(name, value)] => if value.isEmpty then some name else none
  | _ => none

end Data

namespace Library

def readText (text : String) : Except (Option String) Entries :=
  match Table.parse? text with
  | some document => .ok (dataOfEntries document.entries)
  | none => .error none

def writeGroups (groups : List Group) : Except (Option String) String :=
  let blocks := groups.flatMap Group.blocks
  if blocks.all Block.fits then .ok (String.ofList (Block.writeAll blocks)) else .error none

instance standard : Library where
  read := readText
  write := writeGroups
  fields? := Data.fields?
  count? := Data.count?
  real? := Data.real?
  variant? := Data.variant?
  mismatch _ := none

end Library

end VectorSearch.Toml

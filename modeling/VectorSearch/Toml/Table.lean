import VectorSearch.Toml.Value
/-!
Tables of a document and how they grow. A key is set once, and a path may make the tables that it
names on its way.
-/

namespace VectorSearch.Toml

structure Table where
  form : Form
  entries : List (String × Value)

structure Path where
  tables : List String
  key : String
  deriving DecidableEq, Repr

namespace Table

def empty (form : Form) : Table := ⟨form, []⟩

def get? (table : Table) (key : String) : Option Value := table.entries.lookup key

def toValue (table : Table) : Value := .table table.form table.entries

def push (table : Table) (key : String) (value : Value) : Table :=
  { table with entries := table.entries ++ [(key, value)] }

def replace (table : Table) (key : String) (value : Value) : Table :=
  { table with
    entries := table.entries.map fun entry => if entry.1 = key then (key, value) else entry }

def erase (table : Table) (key : String) : Table :=
  { table with entries := table.entries.filter fun entry => entry.1 ≠ key }

end Table

/-- Whether a path that makes tables of form `made` may pass a table. Nothing is added to a table in
braces, and a dotted key adds nothing to a table with a header of its own. -/
def Form.letsPass (made : Form) : Form → Bool
  | .inline => false
  | .header => made ≠ .dotted
  | .implied | .dotted => true

namespace Table

/-- Changes the table at the end of a path. Where the path names no table yet, one of form `made` is
made; where it names an array of tables, it goes on in the last of them. -/
def changeAt (made : Form) (change : Table → Option Table) : List String → Table → Option Table
  | [], table => change table
  | key :: path, table =>
    match table.get? key with
    | none => do
      let child ← changeAt made change path (empty made)
      return table.push key child.toValue
    | some (.table form entries) =>
      if made.letsPass form then do
        let child ← changeAt made change path ⟨form, entries⟩
        return table.replace key child.toValue
      else none
    | some (.tables earlier last) => do
      let child ← changeAt made change path ⟨.header, last⟩
      return table.replace key (.tables earlier child.entries)
    | some (.scalar _) | some (.array _) => none

def add? (table : Table) (key : String) (value : Value) : Option Table :=
  match table.get? key with
  | none => some (table.push key value)
  | some _ => none

/-- A table with the entry of a dotted key. The last table on the way must have come about by dotted
keys as well. -/
def assign? (table : Table) (path : Path) (value : Value) : Option Table :=
  changeAt .dotted
    (fun last => if last.form = .dotted ↔ path.tables ≠ [] then last.add? path.key value else none)
    path.tables table

def fill? (table : Table) (entries : List (Path × Value)) : Option Table :=
  entries.foldlM (fun table entry => table.assign? entry.1 entry.2) table

/-- The table that a header with this key opens: a new one, or one that was only implied so far. -/
def open? (parent : Table) (key : String) : Option Table :=
  match parent.get? key with
  | none => some (empty .header)
  | some (.table .implied entries) => some ⟨.header, entries⟩
  | some _ => none

def addTable? (document : Table) (path : Path) (entries : List (Path × Value)) : Option Table :=
  changeAt .implied
    (fun parent => do
      let opened ← parent.open? path.key
      let filled ← opened.fill? entries
      return (parent.erase path.key).push path.key filled.toValue)
    path.tables document

def addElement? (document : Table) (path : Path) (entries : List (Path × Value)) :
    Option Table :=
  changeAt .implied
    (fun parent => do
      let filled ← (empty .header).fill? entries
      match parent.get? path.key with
      | none => return parent.push path.key (.tables [] filled.entries)
      | some (.tables earlier last) =>
        return parent.replace path.key (.tables (earlier ++ [last]) filled.entries)
      | some _ => none)
    path.tables document

end Table

end VectorSearch.Toml

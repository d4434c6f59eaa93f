import VectorSearch.Toml.Section
/-!
Written documents: tables of scalars, each under a header of its own.
-/

namespace VectorSearch.Toml

/-- A table of scalars. Its names need no quotes. -/
structure Block where
  path : Path
  entries : List (String × Scalar)

def Scalar.write : Scalar → List Char
  | .text content => writeQuoted content.toList
  | .whole value => writeWhole value
  | .real value => writeReal value
  | .truth value => (toString value).toList
  | .moment content => content.toList

def Scalar.fits : Scalar → Bool
  | .whole value => fitsWord value
  | _ => true

namespace Block

def toSection (block : Block) : Section where
  header := .table block.path
  entries := block.entries.map fun (key, scalar) => (⟨[], key⟩, .scalar scalar)

def writeHeader (path : Path) : List Char :=
  '[' :: ((path.tables.flatMap fun table => table.toList ++ ['.']) ++ path.key.toList ++
    [']', '\n'])

def writeEntry (entry : String × Scalar) : List Char :=
  entry.1.toList ++ [' ', '=', ' '] ++ entry.2.write ++ ['\n']

def write (block : Block) : List Char :=
  writeHeader block.path ++ block.entries.flatMap writeEntry

def writeAll : List Block → List Char
  | [] => []
  | [block] => block.write
  | block :: blocks => block.write ++ '\n' :: writeAll blocks

def fits (block : Block) : Bool := block.entries.all fun entry => entry.2.fits

end Block

end VectorSearch.Toml

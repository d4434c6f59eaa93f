import VectorSearch.Toml.Reader
/-!
Sections of a document: the lines from one header to the next, and how they are written.
-/

namespace VectorSearch.Toml

inductive Header where
  | root
  | table (path : Path)
  | element (path : Path)
  deriving DecidableEq, Repr

structure Section where
  header : Header
  entries : List (Path × Value)

namespace Section

def empty (header : Header) : Section := ⟨header, []⟩

def push (part : Section) (entry : Path × Value) : Section :=
  { part with entries := part.entries ++ [entry] }

def readHeader : Reader Header
  | '[' :: rest => do
    let (path, rest) ← readPath rest
    match rest with
    | ']' :: ']' :: rest => return (.element path, rest)
    | _ => none
  | chars => do
    let (path, rest) ← readPath chars
    match rest with
    | ']' :: rest => return (.table path, rest)
    | _ => none

/-- Reads sections up to the end of the text, the first of which has been read in part. Each line
takes one of the `left` steps. -/
def readFrom : (left : Nat) → Section → List Char → Option (List Section)
  | 0, _, _ => none
  | left + 1, part, chars =>
    match skipBlanks chars with
    | [] => some [part]
    | '#' :: _ | '\n' :: _ => do readFrom left part (← skipLineEnd? chars)
    | '[' :: rest => do
      let (header, rest) ← readHeader rest
      let parts ← readFrom left (empty header) (← skipLineEnd? rest)
      return part :: parts
    | chars => do
      let (entry, rest) ← readAssignment (readValue depthLimit) chars
      readFrom left (part.push entry) (← skipLineEnd? rest)

/-- The sections of a text. A byte order mark may stand in front. -/
def readAll (chars : List Char) : Option (List Section) :=
  let chars := match chars with
    | '\ufeff' :: rest => rest
    | chars => chars
  let chars := unifyBreaks chars
  readFrom (chars.length + 1) (empty .root) chars

end Section

/-! Documents: the tables that sections build up. -/

def Section.addTo? (part : Section) (document : Table) : Option Table :=
  match part.header with
  | .root => document.fill? part.entries
  | .table path => document.addTable? path part.entries
  | .element path => document.addElement? path part.entries

def Table.ofSections? (parts : List Section) : Option Table :=
  parts.foldlM (fun document part => part.addTo? document) (empty .header)

def Table.parse? (text : String) : Option Table :=
  Section.readAll text.toList >>= ofSections?

end VectorSearch.Toml

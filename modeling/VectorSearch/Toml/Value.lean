/-!
What a document in TOML holds: scalars, arrays and tables. A table remembers how it came about,
because that decides how the rest of the document may add to it.
-/

namespace VectorSearch.Toml

inductive Scalar where
  | text (content : String)
  | whole (value : Int)
  | real (value : Float)
  | truth (value : Bool)
  | moment (content : String)
  deriving DecidableEq

inductive Form where
  /-- It is written in braces. Nothing can be added to it. -/
  | inline
  | header
  /-- It is named on the way to a header, and may still get a header of its own. -/
  | implied
  | dotted
  deriving DecidableEq, Repr

inductive Value where
  | scalar (value : Scalar)
  | array (items : List Value)
  | table (form : Form) (entries : List (String × Value))
  /-- An array of tables that have a header each. The last one is kept apart, because headers and
  keys add to it. -/
  | tables (earlier : List (List (String × Value))) (last : List (String × Value))

end VectorSearch.Toml

/-!
Blanks, comments and line ends. A reader takes characters from the front of a text and gives the
rest back. Readers know one line break: texts are brought to that form before they are read.
-/

namespace VectorSearch.Toml

abbrev Reader (α : Type) := List Char → Option (α × List Char)

/-- A text whose line breaks are single line feeds, where a carriage return may stand before each. A
carriage return that stands elsewhere is kept, and no reader accepts it. -/
def unifyBreaks : List Char → List Char
  | '\r' :: '\n' :: rest => '\n' :: unifyBreaks rest
  | char :: rest => char :: unifyBreaks rest
  | [] => []

def isBlank (char : Char) : Bool := char = ' ' || char = '\t'

def isPrintable (char : Char) : Bool :=
  char = '\t' || (decide (' ' ≤ char) && char ≠ '\x7f')

def skipBlanks (chars : List Char) : List Char := chars.dropWhile isBlank

def skipComment : List Char → List Char
  | '#' :: rest => rest.dropWhile isPrintable
  | chars => chars

def skipLineEnd? (chars : List Char) : Option (List Char) :=
  match skipComment (skipBlanks chars) with
  | [] => some []
  | '\n' :: rest => some rest
  | _ => none

def skipBreak : List Char → List Char
  | '\n' :: rest => rest
  | chars => chars

/-- The text behind blanks, line breaks and comments. Each comment ends with its line. -/
def skipFiller? : (comment : Bool) → List Char → Option (List Char)
  | comment, [] => if comment then none else some []
  | comment, char :: rest =>
    if char = '\n' then skipFiller? false rest
    else if comment then if isPrintable char then skipFiller? true rest else none
    else if isBlank char then skipFiller? false rest
    else if char = '#' then skipFiller? true rest
    else some (char :: rest)

end VectorSearch.Toml

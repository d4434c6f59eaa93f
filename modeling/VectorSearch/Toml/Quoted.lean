import VectorSearch.Toml.Space
/-!
Texts in quotes. A text in double quotes may hold escape sequences; one in single quotes holds its
characters as they are. Three quotes of either kind open a text that may run over several lines.
-/

namespace VectorSearch.Toml

def escaped? : Char → Option Char
  | 'b' => some '\x08'
  | 't' => some '\t'
  | 'n' => some '\n'
  | 'f' => some '\x0c'
  | 'r' => some '\r'
  | '"' => some '"'
  | '\\' => some '\\'
  | _ => none

def hexValue? (char : Char) : Option Nat :=
  if '0' ≤ char ∧ char ≤ '9' then some (char.toNat - '0'.toNat)
  else if 'a' ≤ char ∧ char ≤ 'f' then some (char.toNat - 'a'.toNat + 10)
  else if 'A' ≤ char ∧ char ≤ 'F' then some (char.toNat - 'A'.toNat + 10)
  else none

def char? (number : Nat) : Option Char :=
  if number.isValidChar then some (Char.ofNat number) else none

def withChar (char : Char) (read : Option (List Char × List Char)) :
    Option (List Char × List Char) :=
  read.map fun (content, rest) => (char :: content, rest)

/-- Reads the quotes that close a text over several lines: three, and before them up to two that
belong to the text. -/
def closeLines? (quote : Char) : Reader (List Char) := fun chars =>
  let quotes := (chars.takeWhile (· = quote)).length
  if quotes < 3 then none
  else
    let own := min (quotes - 3) 2
    some (List.replicate own quote, chars.drop (own + 3))

inductive Place where
  /-- Among characters that stand for themselves. Behind a backslash that ended a line, blanks and
  line breaks are left out up to the next other character. -/
  | plain (leaveOut : Bool)
  | escape
  | number (left value : Nat)
  | lineEnd
  deriving DecidableEq, Repr

def doubleQuotedFrom (lines : Bool) : Place → Reader (List Char)
  | _, [] => none
  | .plain leaveOut, char :: rest =>
    if char = '"' then
      if lines then
        match closeLines? '"' (char :: rest) with
        | some closed => some closed
        | none => withChar '"' (doubleQuotedFrom lines (.plain false) rest)
      else some ([], rest)
    else if char = '\\' then doubleQuotedFrom lines .escape rest
    else if leaveOut && (isBlank char || char = '\n') then
      doubleQuotedFrom lines (.plain true) rest
    else if isPrintable char || (lines && char = '\n') then
      withChar char (doubleQuotedFrom lines (.plain false) rest)
    else none
  | .escape, char :: rest =>
    if char = 'u' then doubleQuotedFrom lines (.number 4 0) rest
    else if char = 'U' then doubleQuotedFrom lines (.number 8 0) rest
    else if lines && isBlank char then doubleQuotedFrom lines .lineEnd rest
    else if lines && char = '\n' then doubleQuotedFrom lines (.plain true) rest
    else
      match escaped? char with
      | some char => withChar char (doubleQuotedFrom lines (.plain false) rest)
      | none => none
  | .number left value, char :: rest =>
    match hexValue? char with
    | none => none
    | some digit =>
      if left ≤ 1 then
        match char? (16 * value + digit) with
        | some char => withChar char (doubleQuotedFrom lines (.plain false) rest)
        | none => none
      else doubleQuotedFrom lines (.number (left - 1) (16 * value + digit)) rest
  | .lineEnd, char :: rest =>
    if isBlank char then doubleQuotedFrom lines .lineEnd rest
    else if char = '\n' then doubleQuotedFrom lines (.plain true) rest
    else none

def singleQuotedFrom (lines : Bool) : Reader (List Char)
  | [] => none
  | char :: rest =>
    if char = '\x27' then
      if lines then
        match closeLines? '\x27' (char :: rest) with
        | some closed => some closed
        | none => withChar char (singleQuotedFrom lines rest)
      else some ([], rest)
    else if isPrintable char || (lines && char = '\n') then
      withChar char (singleQuotedFrom lines rest)
    else none

def readQuotedLine : Reader (List Char)
  | '"' :: rest => doubleQuotedFrom false (.plain false) rest
  | '\x27' :: rest => singleQuotedFrom false rest
  | _ => none

/-- Reads a text in quotes. A line break right behind three quotes is no part of the text. -/
def readQuoted : Reader (List Char)
  | '"' :: '"' :: '"' :: rest => doubleQuotedFrom true (.plain false) (skipBreak rest)
  | '\x27' :: '\x27' :: '\x27' :: rest => singleQuotedFrom true (skipBreak rest)
  | chars => readQuotedLine chars

def writeChar (char : Char) : List Char :=
  if char = '"' ∨ char = '\\' then ['\\', char]
  else if isPrintable char then [char]
  else ['\\', 'u', '0', '0', Nat.digitChar (char.toNat / 16), Nat.digitChar (char.toNat % 16)]

def writeQuoted (content : List Char) : List Char :=
  '"' :: (content.flatMap writeChar ++ ['"'])

end VectorSearch.Toml

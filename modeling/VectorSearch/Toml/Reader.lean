import VectorSearch.Toml.Moment
import VectorSearch.Toml.Table
/-!
Reading keys and values.
-/

namespace VectorSearch.Toml

def isKeyChar (char : Char) : Bool := char.isAlphanum || char = '_' || char = '-'

def readKey : Reader String := fun chars =>
  match chars.takeWhile isKeyChar with
  | [] => (readQuotedLine chars).map fun (content, rest) => (String.ofList content, rest)
  | bare => some (String.ofList bare, chars.dropWhile isKeyChar)

def readKeys : (limit : Nat) → Reader (List String)
  | 0, _ => none
  | limit + 1, chars => do
    let (key, rest) ← readKey (skipBlanks chars)
    match skipBlanks rest with
    | '.' :: rest =>
      let (keys, rest) ← readKeys limit rest
      return (key :: keys, rest)
    | rest => return ([key], rest)

/-- The greatest number of keys in a path, and of brackets around a value. -/
def depthLimit : Nat := 79

def readPath : Reader Path := fun chars => do
  let (keys, rest) ← readKeys depthLimit chars
  let key ← keys.getLast?
  return (⟨keys.dropLast, key⟩, rest)

def isTokenChar (char : Char) : Bool :=
  char.isAlphanum || char = '+' || char = '-' || char = '_' || char = '.' || char = ':'

def Scalar.ofToken? (token : List Char) : Option Scalar :=
  if token = ['t', 'r', 'u', 'e'] then some (.truth true)
  else if token = ['f', 'a', 'l', 's', 'e'] then some (.truth false)
  else if isMoment token then some (.moment (String.ofList token))
  else
    match whole? token with
    | some value => some (.whole value)
    | none => (real? token).map .real

def readTime : Reader (List Char)
  | ' ' :: rest =>
    let time := rest.takeWhile isTokenChar
    if isZonedTime time then some (time, rest.dropWhile isTokenChar) else none
  | _ => none

def readScalar : Reader Scalar := fun chars =>
  match readQuoted chars with
  | some (content, rest) => some (.text (String.ofList content), rest)
  | none => do
    let token := chars.takeWhile isTokenChar
    let rest := chars.dropWhile isTokenChar
    let scalar ← Scalar.ofToken? token
    if isDate token then
      match readTime rest with
      | some (time, rest) => return (.moment (String.ofList (token ++ ' ' :: time)), rest)
      | none => return (scalar, rest)
    else return (scalar, rest)

/-- Reads the values of an array up to its closing bracket. A comma may follow the last one. The
number of values that may still come is `left`. -/
def readItems (item : Reader Value) : (left : Nat) → Reader (List Value)
  | left, chars => do
    match ← skipFiller? false chars with
    | ']' :: rest => return ([], rest)
    | chars =>
      match left with
      | 0 => none
      | left + 1 =>
        let (value, rest) ← item chars
        match ← skipFiller? false rest with
        | ',' :: rest =>
          let (values, rest) ← readItems item left rest
          return (value :: values, rest)
        | ']' :: rest => return ([value], rest)
        | _ => none

def readAssignment (value : Reader Value) : Reader (Path × Value) := fun chars => do
  let (path, rest) ← readPath chars
  match rest with
  | '=' :: rest =>
    let (value, rest) ← value (skipBlanks rest)
    return ((path, value), rest)
  | _ => none

/-- Reads the entries of a table in braces, of which there is at least one. No comma may follow the
last one. The number of entries that may still come is `left`. -/
def readEntries (value : Reader Value) : (left : Nat) → Reader (List (Path × Value))
  | 0, _ => none
  | left + 1, chars => do
    let (entry, rest) ← readAssignment value chars
    match skipBlanks rest with
    | ',' :: rest =>
      let (entries, rest) ← readEntries value left rest
      return (entry :: entries, rest)
    | '}' :: rest => return ([entry], rest)
    | _ => none

def readBraces (value : Reader Value) : Reader Value := fun chars => do
  match skipBlanks chars with
  | '}' :: rest => return ((Table.empty .inline).toValue, rest)
  | chars =>
    let (entries, rest) ← readEntries value chars.length chars
    let table ← (Table.empty .inline).fill? entries
    return (table.toValue, rest)

def readValue : (depth : Nat) → Reader Value
  | 0, chars => (readScalar chars).map fun (scalar, rest) => (.scalar scalar, rest)
  | depth + 1, chars =>
    match chars with
    | '[' :: rest =>
      (readItems (readValue depth) rest.length rest).map fun (items, rest) => (.array items, rest)
    | '{' :: rest => readBraces (readValue depth) rest
    | chars => (readScalar chars).map fun (scalar, rest) => (.scalar scalar, rest)

end VectorSearch.Toml

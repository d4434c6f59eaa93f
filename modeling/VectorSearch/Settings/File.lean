import VectorSearch.Change
import VectorSearch.Settings.Text
/-!
Settings in a file. Only what is on disk at the file's path matters: whether its folder is there,
whether the file is, and which bytes it holds.
-/

namespace VectorSearch

/-- What is on disk at the path of a settings file. -/
inductive SettingsFile where
  | folderMissing
  | missing
  | holds (bytes : ByteArray)

namespace SettingsFile

def notFound : String := "No such file or directory (os error 2)"

def notText : String := "stream did not contain valid UTF-8"

def bytes? : SettingsFile → Option ByteArray
  | holds bytes => some bytes
  | folderMissing | missing => none

def text? (file : SettingsFile) : Option String := file.bytes? >>= String.fromUTF8?

def delete : SettingsFile → SettingsFile
  | folderMissing => folderMissing
  | missing | holds _ => missing

def put? (text : String) : SettingsFile → Option SettingsFile
  | folderMissing => none
  | missing | holds _ => some (holds text.toUTF8)

def refusal (action path : String) (reason : Option String) : Failure :=
  .configuration (Settings.told ("Failed to " ++ action ++ " config file '" ++ path ++ "'") reason)

def load [Toml.Library] (path : String) (file : SettingsFile) : Except Failure Settings :=
  match file.bytes? with
  | none => .error (refusal "read" path notFound)
  | some bytes =>
    match String.fromUTF8? bytes with
    | none => .error (refusal "read" path notText)
    | some text =>
      match Settings.read text with
      | .error reason => .error (refusal "parse" path reason)
      | .ok settings => settings.check.map fun _ => settings

def write (action path text : String) (file : SettingsFile) : Except Failure SettingsFile :=
  match file.put? text with
  | some file => .ok file
  | none => .error (refusal action path notFound)

def writeDefault (path : String) (file : SettingsFile) : Except Failure SettingsFile :=
  match file.bytes? with
  | some _ => .ok file
  | none => file.write "write default" path Settings.defaultText

/-- Writes settings to the file at a path. Settings without a text leave the file as it is. -/
def save [Toml.Library] (path : String) (settings : Settings) (file : SettingsFile) :
    Except Failure SettingsFile := do
  let text ← settings.write
  file.write "write" path text

/-! The same calls in place: their writes in the order in which they are made. -/

def writeInPlace (action path text : String) : Change SettingsFile := do
  match ← get with
  | folderMissing => Change.refuse (refusal action path notFound)
  | missing | holds _ => set (holds .empty)
  set (holds text.toUTF8)

def writeDefaultInPlace (path : String) : Change SettingsFile := do
  match (← get).bytes? with
  | some _ => return
  | none => writeInPlace "write default" path Settings.defaultText

def saveInPlace [Toml.Library] (path : String) (settings : Settings) : Change SettingsFile := do
  let text ← .ofExcept (settings.write.mapError .refused)
  writeInPlace "write" path text

end SettingsFile

end VectorSearch

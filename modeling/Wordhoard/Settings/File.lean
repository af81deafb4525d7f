import Wordhoard.Files.Program
import Wordhoard.Settings.Basic

/-! The file of the settings, and where it and the collection are by default. -/
namespace Wordhoard

structure Environment where
  store : Option String := none
  settings : Option String := none
  configHome : Option String := none
  dataHome : Option String := none
  home : Option String := none
  noColor : Bool := false
  deriving DecidableEq, Repr

namespace Environment

def home? (e : Environment) : Option String := e.home.filter (· ≠ "")

def settingsPath? (e : Environment) : Option String :=
  let under (directory : String) := Files.join (Files.join directory "vocab") "config.toml"
  e.settings <|> e.configHome.map under <|> e.home?.map fun h => under (Files.join h ".config")

/-- Where the collection is if nothing says otherwise. Only an absolute data directory counts. -/
def collectionPath? (e : Environment) : Option String :=
  e.home?.map fun h =>
    let directory := (e.dataHome.filter Files.isAbsolute).getD (Files.join h ".local/share")
    Files.join (Files.join directory "vocab") "vocabulary.json"

end Environment

namespace Settings

open Files (Program Request)

abbrev Action (α : Type) := ExceptT Error Program α

def decode (bytes : ByteArray) : Except Error Settings :=
  match String.fromUTF8? bytes with
  | none => .error .unreadable
  | some text =>
    match read? text with
    | none => .error .malformed
    | some s => .ok s

def load (path : String) : Action Settings := do
  if ← (Program.request (.exists path) : Program _) then
    match ← (Program.request (.read path) : Program _) with
    | .error _ => throw .unreadable
    | .ok bytes => decode bytes
  else return {}

def save (path : String) (s : Settings) : Action Unit := do
  match Files.parent? path with
  | some directory =>
    match ← (Program.request (.createDirectories directory) : Program _) with
    | .error _ => throw .directoryNotCreated
    | .ok () => pure ()
  | none => pure ()
  match ← (Program.request (.write path s.text.toUTF8) : Program _) with
  | .error _ => throw .notWritten
  | .ok () => return

def change (path key value : String) : Action Unit := do
  let s ← (← load path).set key value
  save path s

end Settings

end Wordhoard

import Wordhoard.Json.Basic
import Wordhoard.Query.Parser
import Wordhoard.Toml.Reader

/-! Settings that outlast a run, and their text. A setting without a value leaves the choice to the
program. -/
namespace Wordhoard

structure Settings where
  storePath : Option String := none
  color : Option Bool := none
  defaultQuery : Option String := none
  deriving DecidableEq, Repr

namespace Settings

inductive Error where
  | noDirectory
  | unreadable
  | malformed
  | directoryNotCreated
  | notWritten
  | unknownKey (key : String)
  | notBoolean (value : String)
  | badQuery (error : Query.ParseError)
  deriving DecidableEq, Repr

/-- What went wrong, without the reasons of the operating system. -/
def Error.message : Error → String
  | noDirectory => "Could not determine config directory"
  | unreadable => "Failed to read config"
  | malformed => "Failed to parse config"
  | directoryNotCreated => "Failed to create config directory"
  | notWritten => "Failed to write config"
  | unknownKey key =>
    "Unknown config key '" ++ key ++ "'. Valid keys: store.path, output.color, query.default"
  | notBoolean value =>
    "Invalid boolean value '" ++ value ++ "'. Use true/false, yes/no, 1/0, or on/off"
  | badQuery e => "Invalid default query: " ++ e.message

/-- The version that is written. Any version is read. -/
def formatVersion : Nat := 1

def boolText (b : Bool) : String := if b then "true" else "false"

def line (name : String) (value : Option String) : String :=
  value.elim "" fun v => name ++ " = " ++ v ++ "\n"

def text (s : Settings) : String :=
  s!"version = {formatVersion}\n\n" ++
    "[store]\n" ++ line "path" (s.storePath.map Toml.quote) ++ "\n" ++
    "[output]\n" ++ line "color" (s.color.map boolText) ++ "\n" ++
    "[query]\n" ++ line "default" (s.defaultQuery.map Toml.quote)

/-- The value of a name in a section, or nothing if the section is none. A section may also be given
as a list, and then its setting is the first item; a date is a section without settings. -/
def member? (name : String) : Option Toml.Value → Option (Option Toml.Value)
  | none => some none
  | some (.table members) => some (members.lookup name)
  | some (.dateTime _) => some none
  | some (.array (first :: _)) => some (some first)
  | some _ => none

def string? : Toml.Value → Option String
  | .string s => some s
  | _ => none

def boolean? : Toml.Value → Option Bool
  | .boolean b => some b
  | _ => none

def isVersion : Toml.Value → Bool
  | .integer n => 0 ≤ n && n < UInt32.size
  | _ => false

def setting? {α : Type} (read : Toml.Value → Option α) : Option Toml.Value → Option (Option α)
  | none => some none
  | some v => (read v).map some

def ofTable? (members : List (String × Toml.Value)) : Option Settings := do
  if (members.lookup "version").all isVersion then
    return {
      storePath := ← setting? string? (← member? "path" (members.lookup "store"))
      color := ← setting? boolean? (← member? "color" (members.lookup "output"))
      defaultQuery := ← setting? string? (← member? "default" (members.lookup "query")) }
  else none

def read? (text : String) : Option Settings := (Toml.read? text).bind ofTable?

def json (s : Settings) : Json :=
  .object [
    ("output", .object (s.color.map fun b => ("color", .bool b)).toList),
    ("query", .object (s.defaultQuery.map fun q => ("default", .string q)).toList),
    ("store", .object (s.storePath.map fun p => ("path", .string p)).toList),
    ("version", .integer formatVersion)]

def readBool? (value : String) : Option Bool :=
  let word := Text.lowercase value
  if word ∈ ["true", "yes", "1", "on"] then some true
  else if word ∈ ["false", "no", "0", "off"] then some false
  else none

def set (s : Settings) (key value : String) : Except Error Settings :=
  if key = "store.path" then .ok { s with storePath := some value }
  else if key = "output.color" then
    match readBool? value with
    | some b => .ok { s with color := some b }
    | none => .error (.notBoolean value)
  else if key = "query.default" then
    match Query.parse value with
    | .ok _ => .ok { s with defaultQuery := some value }
    | .error e => .error (.badQuery e)
  else .error (.unknownKey key)

end Settings

end Wordhoard

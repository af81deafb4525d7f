import Wordhoard.Collection.Json
import Wordhoard.Collection.Key
import Wordhoard.Files.Program

/-! The collection in a file. It is written to a temporary file first, which then takes the place of
the stored one. -/
namespace Wordhoard.Store

open Files (Program Request)

inductive Error where
  | noDataDirectory
  | read (path : String)
  | write (path : String)
  | createDirectory (path : String)
  | delete (path : String)
  | malformed
  | unsupportedVersion (found : UInt32)
  | key (error : KeyError)
  deriving DecidableEq, Repr

def Error.message : Error → String
  | noDataDirectory => "failed to determine data directory: no valid home directory found"
  | read path => "failed to read vocabulary file '" ++ path ++ "'"
  | write path => "failed to write vocabulary file '" ++ path ++ "'"
  | createDirectory path => "failed to create data directory '" ++ path ++ "'"
  | delete path => "failed to delete vocabulary file '" ++ path ++ "'"
  | malformed => "JSON error"
  | unsupportedVersion found =>
    s!"unsupported vocabulary file version {found.toNat} (this build reads up to " ++
      s!"{currentVersion.toNat})"
  | key e => e.message

abbrev Action (α : Type) := ExceptT Error Program α

variable {α : Type}

def attempt (r : Program (Except Files.Fault α)) (e : Error) : Action α := do
  match ← (r : Program _) with
  | .ok a => return a
  | .error _ => throw e

def decode (path : String) (bytes : ByteArray) : Except Error Collection :=
  match String.fromUTF8? bytes with
  | none => .error (.read path)
  | some text =>
    match Collection.read? text with
    | none => .error .malformed
    | some c => if currentVersion < c.version then .error (.unsupportedVersion c.version) else .ok c

def load (path : String) : Action Collection := do
  let bytes ← attempt (Program.request (.read path)) (.read path)
  decode path bytes

def loadOrEmpty (path : String) : Action Collection := do
  match ← (Program.request (.read path) : Program _) with
  | .error .missing => return {}
  | .error .other => throw (.read path)
  | .ok bytes => decode path bytes

def temporary (path : String) : String := Files.withExtension path "tmp"

def save (path : String) (c : Collection) : Action Unit := do
  match Files.parent? path with
  | some directory =>
    attempt (Program.request (.createDirectories directory)) (.createDirectory directory)
  | none => pure ()
  attempt (Program.request (.write (temporary path) c.text.toUTF8)) (.write (temporary path))
  attempt (Program.request (.rename (temporary path) path)) (.write path)

def exists? (path : String) : Program Bool := Program.request (.exists path)

def delete (path : String) : Action Unit := do
  match ← (Program.request (.remove path) : Program _) with
  | .error .missing => return
  | .error .other => throw (.delete path)
  | .ok () => return

end Wordhoard.Store

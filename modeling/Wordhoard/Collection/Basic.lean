import Wordhoard.Collection.KeyMap
import Wordhoard.Text.Position
import Wordhoard.Word.Basic

/-! The collection: words under keys, and when the current session began. -/
namespace Wordhoard

structure Entry where
  key : String
  word : Word
  deriving DecidableEq

structure Collection where
  version : UInt32 := 1
  records : KeyMap Word := {}
  sessionStarted : Option Time.Instant := none
  deriving DecidableEq

def currentVersion : UInt32 := 1

/-- The last eight bytes of a key, or all of it when they begin inside a character. -/
def shortKey (key : String) : String :=
  match Text.splitBytes? (key.utf8ByteSize - 8) key.toList with
  | some (_, s) => String.ofList s
  | none => key

namespace Collection

def entries (c : Collection) : List Entry := c.records.toList.map fun p => ⟨p.1, p.2⟩

def entry? (c : Collection) (key : String) : Option Entry := (c.records.get? key).map (⟨key, ·⟩)

def size (c : Collection) : Nat := c.records.size

def put (c : Collection) (key : String) (w : Word) : Collection :=
  { c with records := c.records.insert key w }

def add (c : Collection) (entries : List Entry) : Collection :=
  entries.foldl (fun c e => c.put e.key e.word) c

def erase (c : Collection) (key : String) : Collection :=
  { c with records := c.records.erase key }

def startSession (c : Collection) (now : Time.Instant) : Collection :=
  { c with records := c.records.mapValues Word.resetSession, sessionStarted := some now }

end Collection

end Wordhoard

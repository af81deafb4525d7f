import Wordhoard.Files.Path

/-! A model of a file system: files and directories at places, and what the operations on them do.
Only the root is always there. An operation fails here for what lies in its way and for nothing else;
what programs do whose changes fail for any reason is told over their requests. -/
namespace Wordhoard.Files

abbrev Place := List String

inductive Node where
  | file (content : ByteArray)
  | directory

/-- Why an operation failed: something on the way is not there, or anything else. -/
inductive Fault where
  | missing
  | other
  deriving DecidableEq, Repr

structure Disk where
  nodes : List (Place × Node) := []
  here : Place := []

namespace Disk

def node? (d : Disk) (p : Place) : Option Node :=
  if p = [] then some .directory else d.nodes.lookup p

def erase (d : Disk) (p : Place) : Disk := { d with nodes := d.nodes.filter (·.1 ≠ p) }

def put (d : Disk) (p : Place) (n : Node) : Disk :=
  { d with nodes := (p, n) :: (d.erase p).nodes }

/-- Follows segments from a place. All but the last have to be directories, and the last one need
not be there. -/
def walk (d : Disk) (p : Place) : List String → Except Fault Place
  | [] => .ok p
  | s :: rest =>
    match d.node? p with
    | none => .error .missing
    | some (.file _) => .error .other
    | some .directory =>
      if s = "" ∨ s = "." then d.walk p rest
      else if s = ".." then d.walk p.dropLast rest
      else d.walk (p ++ [s]) rest

def start (d : Disk) (path : String) : Place := if isAbsolute path then [] else d.here

def locate (d : Disk) (path : String) : Except Fault Place :=
  if path = "" then .error .missing else d.walk (d.start path) (segments path)

def read (d : Disk) (path : String) : Except Fault ByteArray := do
  match d.node? (← d.locate path) with
  | some (.file content) => .ok content
  | some .directory => .error .other
  | none => .error .missing

def exists? (d : Disk) (path : String) : Bool :=
  match d.locate path with
  | .ok p => (d.node? p).isSome
  | .error _ => false

def write (d : Disk) (path : String) (content : ByteArray) : Except Fault Disk := do
  let p ← d.locate path
  match d.node? p with
  | some .directory => .error .other
  | _ => .ok (d.put p (.file content))

def createWalk (d : Disk) (p : Place) : List String → Except Fault Unit × Disk
  | [] => (.ok (), d)
  | s :: rest =>
    if s = "" ∨ s = "." then d.createWalk p rest
    else if s = ".." then d.createWalk p.dropLast rest
    else
      match d.node? (p ++ [s]) with
      | some .directory => d.createWalk (p ++ [s]) rest
      | some (.file _) => (.error .other, d)
      | none => (d.put (p ++ [s]) .directory).createWalk (p ++ [s]) rest

/-- Creates a directory and those it lies in. What was created stays when this fails. -/
def createDirectories (d : Disk) (path : String) : Except Fault Unit × Disk :=
  if path = "" then (.ok (), d) else d.createWalk (d.start path) (segments path)

def rename (d : Disk) (source target : String) : Except Fault Disk := do
  let p ← d.locate source
  let q ← d.locate target
  match d.node? p, d.node? q with
  | some (.file _), some .directory => .error .other
  | some (.file content), _ => .ok ((d.erase p).put q (.file content))
  | some .directory, _ => .error .other
  | none, _ => .error .missing

def remove (d : Disk) (path : String) : Except Fault Disk := do
  let p ← d.locate path
  match d.node? p with
  | some (.file _) => .ok (d.erase p)
  | some .directory => .error .other
  | none => .error .missing

end Disk

end Wordhoard.Files

import Wordhoard.Store.Basic

/-! Operations on the stored records. Each loads the collection anew, and saves it if it changed. -/
namespace Wordhoard.Store

def notFound (key : String) : Error := .key (.notFound key)

def list (path : String) (keep : Word → Bool) : Action (List Entry) := do
  return (← loadOrEmpty path).entries.filter fun e => keep e.word

def create (path : String) (newKey : Nat → String) (words : List Word) : Action (List Entry) := do
  let c ← loadOrEmpty path
  let entries := words.mapIdx fun n w => ⟨newKey n, w⟩
  save path (c.add entries)
  return entries

def resetSession (path : String) (now : Time.Instant) : Action Unit := do
  save path ((← loadOrEmpty path).startSession now)

def exportText (path : String) : Action String := do
  return (← loadOrEmpty path).text

def entryOf (c : Collection) (key : String) : Except Error Entry :=
  match c.entry? key with
  | some e => .ok e
  | none => .error (notFound key)

def get (path key : String) : Action Entry := do
  entryOf (← loadOrEmpty path) key

def review (path key : String) (now : Time.Instant) : Action (Entry × Bool) := do
  let c ← loadOrEmpty path
  let e ← entryOf c key
  let (counted, w) := e.word.review now
  if counted then save path (c.put key w)
  return (⟨key, w⟩, counted)

def update (path key : String) (d : Definition) : Action Entry := do
  let c ← loadOrEmpty path
  let e ← entryOf c key
  let w := e.word.redefine d
  save path (c.put key w)
  return ⟨key, w⟩

def remove (path key : String) : Action Entry := do
  let c ← loadOrEmpty path
  let e ← entryOf c key
  save path (c.erase key)
  return e

def size (path : String) : Action Nat := do
  return (← loadOrEmpty path).size

def resolve (path fragment : String) : Action String := do
  match (← loadOrEmpty path).resolve fragment with
  | .ok key => return key
  | .error e => throw (.key e)

end Wordhoard.Store

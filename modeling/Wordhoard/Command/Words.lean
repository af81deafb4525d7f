import Wordhoard.Command.Error

/-! Commands on the words of a store. Keys may be given by fragments, and all of them are resolved
before anything changes. -/
namespace Wordhoard.Command

open Store (Surroundings)

def checkTags (tags : List String) : Except Error Unit :=
  match tags.find? (!isValidTag ·) with
  | some tag => .error (.invalidTag tag)
  | none => .ok ()

def readContent (markup : String) : Except Error (List Piece) :=
  (Markup.parse markup).mapError .content

def newWords (markup : String) (description : Option String) (tags : List String) :
    Except Error (List Word) := do
  checkTags tags
  let content ← readContent markup
  let d : Definition := ⟨content, description.getD "", .ofList tags⟩
  (Query.newWords [d]).mapError .evaluate

def add (path : String) (s : Surroundings) (markup : String) (description : Option String)
    (tags : List String) : Action (List Entry) := do
  let words ← newWords markup description tags
  .ofStore (Store.create path s.newKey words)

/-- What to change of a definition. Tags replace the old ones, if there are any. -/
structure Edit where
  content : Option String := none
  description : Option String := none
  tags : List String := []
  addedTag : Option String := none
  removedTag : Option String := none
  deriving DecidableEq, Repr

inductive Part where
  | content
  | description
  | tags
  deriving DecidableEq, Repr

def Part.name : Part → String
  | content => "content"
  | description => "description"
  | tags => "tags"

namespace Edit

def changesTags (e : Edit) : Bool := !e.tags.isEmpty || e.addedTag.isSome || e.removedTag.isSome

def parts (e : Edit) : List Part :=
  (if e.content.isSome then [.content] else []) ++
    (if e.description.isSome then [.description] else []) ++ if e.changesTags then [.tags] else []

def newContent (e : Edit) (old : List Piece) : Except Error (List Piece) := do
  match e.content with
  | none => return old
  | some markup =>
    match ← readContent markup with
    | [] => .error (.evaluate (.emptyContent 0))
    | content => return content

/-- The tags to set, then the one to add, then the one to remove. -/
def newTags (e : Edit) (old : TagSet) : Except Error TagSet := do
  checkTags e.tags
  checkTags e.addedTag.toList
  let set := if e.tags.isEmpty then old else .ofList e.tags
  let added := e.addedTag.elim set set.insert
  return e.removedTag.elim added added.erase

def apply (e : Edit) (d : Definition) : Except Error Definition := do
  let content ← e.newContent d.content
  let tags ← e.newTags d.tags
  return ⟨content, e.description.getD d.description, tags⟩

end Edit

/-- Changes a stored word, and tells which parts changed. An edit of nothing only looks for it. -/
def edit (path fragment : String) (e : Edit) : Action (Option (Entry × List Part)) := do
  let key ← .ofStore (Store.resolve path fragment)
  if e.parts.isEmpty then return none
  else
    let old ← .ofStore (Store.get path key)
    let d ← e.apply old.word.toDefinition
    let entry ← .ofStore (Store.update path key d)
    return some (entry, e.parts)

def list (path : String) (limit : Option Nat) (unreviewed : Bool) : Action (List Entry) := do
  let entries ← .ofStore (Store.list path fun w => !unreviewed || !w.reviewed)
  return limit.elim entries entries.take

def review (path : String) (fragments : List String) (now : Time.Instant) :
    Action (List (Entry × Bool)) := do
  let keys ← fragments.mapM fun f => .ofStore (Store.resolve path f)
  keys.mapM fun key => .ofStore (Store.review path key now)

def collect (path : String) (found : List Entry) (fragment : String) : Action (List Entry) := do
  let key ← .ofStore (Store.resolve path fragment)
  if found.any (·.key = key) then return found
  else return found ++ [← .ofStore (Store.get path key)]

def resolve (path : String) (fragments : List String) : Action (List Entry) :=
  fragments.foldlM (collect path) []

def remove (path : String) (entries : List Entry) : Action (List Entry) :=
  entries.mapM fun e => .ofStore (Store.remove path e.key)

def delete (path : String) (fragments : List String) (force : Bool) : Action (List Entry) := do
  let entries ← resolve path fragments
  if force || entries.isEmpty then remove path entries else throw .unconfirmed

def startSession (path : String) (now : Time.Instant) : Action Nat := do
  .ofStore (Store.resetSession path now)
  .ofStore (Store.size path)

end Wordhoard.Command

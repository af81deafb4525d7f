import Wordhoard.Collection.Basic
import Wordhoard.Json.Reader
import Wordhoard.Word.Json

/-! Entries and collections as JSON. A collection may also be given as the list of its members in
order. Of records with the same key the last one counts. -/
namespace Wordhoard

namespace Entry

def json (e : Entry) : Json := .object (("key", .string e.key) :: e.word.members)

def ofJson? : Json → Option Entry
  | .object members => do
    let key ← Json.member? "key" members
    return ⟨← (← key).string?, ← Word.ofMembers? members⟩
  | _ => none

end Entry

namespace Collection

def recordsJson (records : KeyMap Word) : Json :=
  .object (records.toList.map fun p => (p.1, p.2.json))

def recordsOfJson? : Json → Option (KeyMap Word)
  | .object members => do
    let pairs ← members.mapM fun p => return (p.1, ← Word.ofJson? p.2)
    return .ofList pairs
  | _ => none

def json (c : Collection) : Json :=
  .object ([("version", .integer c.version.toNat), ("records", recordsJson c.records)] ++
    (c.sessionStarted.map fun t => ("session_started", t.json)).toList)

/-- A collection from its parts, of which only the version has to be there. -/
def ofParts? (version : Json) (records started : Option Json) : Option Collection := do
  return {
    version := ← version.uint32?
    records := ← records.elim (some {}) recordsOfJson?
    sessionStarted := ← started.elim (some none) (Json.nullable? Time.Instant.ofJson?) }

def ofJson? : Json → Option Collection
  | .object members => do
    let version ← Json.member? "version" members
    ofParts? (← version) (← Json.member? "records" members)
      (← Json.member? "session_started" members)
  | .array [version] => ofParts? version none none
  | .array [version, records] => ofParts? version (some records) none
  | .array [version, records, started] => ofParts? version (some records) (some started)
  | _ => none

def text (c : Collection) : String := c.json.pretty

def read? (text : String) : Option Collection := (Json.read? text).bind ofJson?

end Collection

end Wordhoard

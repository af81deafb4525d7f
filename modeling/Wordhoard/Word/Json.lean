import Wordhoard.Json.Basic
import Wordhoard.Time.Text
import Wordhoard.Word.Basic

/-! Words as JSON. A piece and a definition may also be given as the list of their members in order,
where members with a default may be missing at the end; a word may not, since its definition's
members stand among its own. Members of other names do not count. -/
namespace Wordhoard

def Time.Instant.json (t : Instant) : Json := .string t.text

def Time.Instant.ofJson? (v : Json) : Option Instant := v.string?.bind Instant.read?

def Piece.json : Piece → Json
  | plain text => .object [("type", .string "plain"), ("text", .string text)]
  | optional text => .object [("type", .string "optional"), ("text", .string text)]

def Piece.ofParts? (kind text : Json) : Option Piece := do
  let text ← text.string?
  match ← kind.string? with
  | "plain" => some (.plain text)
  | "optional" => some (.optional text)
  | _ => none

def Piece.ofJson? : Json → Option Piece
  | .object members => do
    let kind ← Json.member? "type" members
    let text ← Json.member? "text" members
    Piece.ofParts? (← kind) (← text)
  | .array [kind, text] => Piece.ofParts? kind text
  | _ => none

def TagSet.json (s : TagSet) : Json := .array (s.toList.map .string)

def TagSet.ofJson? (v : Json) : Option TagSet := do
  let tags ← (← v.array?).mapM Json.string?
  return .ofList tags

def contentJson (content : List Piece) : Json := .array (content.map Piece.json)

def contentOfJson? (v : Json) : Option (List Piece) := do (← v.array?).mapM Piece.ofJson?

namespace Definition

def members (d : Definition) : List (String × Json) :=
  [("content", contentJson d.content), ("description", .string d.description),
    ("tags", d.tags.json)]

def json (d : Definition) : Json := .object d.members

def ofParts? (content : Json) (description tags : Option Json) : Option Definition := do
  return {
    content := ← contentOfJson? content
    description := ← description.elim (some "") Json.string?
    tags := ← tags.elim (some {}) TagSet.ofJson? }

def ofMembers? (members : List (String × Json)) : Option Definition := do
  let content ← Json.member? "content" members
  ofParts? (← content) (← Json.member? "description" members) (← Json.member? "tags" members)

def ofJson? : Json → Option Definition
  | .object members => ofMembers? members
  | .array [content] => ofParts? content none none
  | .array [content, description] => ofParts? content (some description) none
  | .array [content, description, tags] => ofParts? content (some description) (some tags)
  | _ => none

end Definition

namespace Word

def members (w : Word) : List (String × Json) :=
  w.toDefinition.members ++ [("review_count", .integer w.reviewCount.toNat)] ++
    (w.lastReviewed.map fun t => ("last_reviewed", t.json)).toList ++
    [("reviewed", .bool w.reviewed)]

def json (w : Word) : Json := .object w.members

def ofMembers? (members : List (String × Json)) : Option Word := do
  let count ← Json.member? "review_count" members
  let last ← Json.member? "last_reviewed" members
  let reviewed ← Json.member? "reviewed" members
  return {
    toDefinition := ← Definition.ofMembers? members
    reviewCount := ← count.elim (some 0) Json.uint32?
    lastReviewed := ← last.elim (some none) (Json.nullable? Time.Instant.ofJson?)
    reviewed := ← reviewed.elim (some false) Json.bool? }

def ofJson? : Json → Option Word
  | .object members => ofMembers? members
  | _ => none

end Word

end Wordhoard

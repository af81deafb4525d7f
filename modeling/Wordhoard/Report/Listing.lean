import Wordhoard.Collection.Basic
import Wordhoard.Report.Style
import Wordhoard.Word.Json

/-! Listings of entries, as a table and as JSON. -/
namespace Wordhoard.Report

def wordWidth : Nat := 24

def tagsWidth : Nat := 15

def descriptionWidth : Nat := 40

def header : String :=
  column 8 "Key" ++ " " ++ column 4 "Rev" ++ " " ++ column 1 "" ++ " " ++ column 12 "Last" ++ " " ++
    column tagsWidth "Tags" ++ " " ++ column wordWidth "Word" ++ " " ++ "Description"

def row (colors : Bool) (now : Time.Instant) (e : Entry) : String :=
  let w := e.word
  column 8 (shortKey e.key) ++ " " ++ column 4 (toString w.reviewCount.toNat) ++ " " ++
    pad (reviewedText colors w.reviewed) (if w.reviewed then 1 else 0) 1 ++ " " ++
    column 12 (lastReviewedText now w.lastReviewed) ++ " " ++
    column tagsWidth (tagsText w.tags tagsWidth) ++ " " ++
    pad (contentText colors w.content) (Markup.render w.content).length wordWidth ++ " " ++
    truncate w.description descriptionWidth

def trimmedRow (colors : Bool) (now : Time.Instant) (e : Entry) : String :=
  String.ofList (Text.trimEnd (row colors now e).toList)

def table (entries : List Entry) (colors : Bool) (now : Time.Instant) : String :=
  if entries.isEmpty then "No words found.\n"
  else
    styled colors dimmed header ++ "\n" ++
      String.join (entries.map fun e => trimmedRow colors now e ++ "\n")

def created (entries : List Entry) (colors : Bool) : String :=
  String.join (entries.map fun e =>
    "Added: " ++ contentText colors e.word.content ++ " (" ++ shortKey e.key ++ ")\n")

def entryJson (e : Entry) : Json :=
  let w := e.word
  .object [("key", .string e.key), ("content", .string (Markup.render w.content)),
    ("text", .string w.contentText), ("description", .string w.description),
    ("tags", w.tags.json), ("review_count", .integer w.reviewCount.toNat),
    ("last_reviewed", w.lastReviewed.elim .null Time.Instant.json), ("reviewed", .bool w.reviewed)]

def listingJson (entries : List Entry) : Json :=
  .object [("words", .array (entries.map entryJson)), ("total", .integer entries.length)]

end Wordhoard.Report

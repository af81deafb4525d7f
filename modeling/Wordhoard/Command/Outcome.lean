import Wordhoard.Command.Task
import Wordhoard.Report.Listing

/-! What tasks come to, as text and as JSON. -/
namespace Wordhoard.Command

inductive Outcome where
  | created (entries : List Entry)
  | listed (entries : List Entry)
  | edited (entry : Entry) (parts : List Part)
  | unchanged (fragment : String)
  | reviewed (results : List (Entry × Bool))
  | deleted (entries : List Entry)
  | sessionStarted (words : Nat)
  | dump (text : String)
  | exported (path : String) (words : Nat)
  | settings (path : String) (stored : Option Settings)
  | settingChanged (path key value : String)
  | settingsPath (path : String) (isStored : Bool)
  | completions (shell : Shell)
  | overview

structure View where
  json : Bool
  quiet : Bool
  verbose : Bool
  colors : Bool
  now : Time.Instant

namespace Outcome

def reviewJson (r : Entry × Bool) : Json :=
  .object [("key", .string r.1.key), ("text", .string r.1.word.contentText),
    ("counted", .bool r.2), ("review_count", .integer r.1.word.reviewCount.toNat)]

def deletedJson (e : Entry) : Json :=
  .object [("key", .string e.key), ("text", .string e.word.contentText)]

def json? : Outcome → Option Json
  | created entries | listed entries => some (Report.listingJson entries)
  | edited entry _ => some (Report.listingJson [entry])
  | unchanged _ =>
    some (.object [("message", .string "No changes specified"), ("status", .string "unchanged")])
  | reviewed results => some (.array (results.map reviewJson))
  | deleted entries =>
    some (.object [("deleted", .array (entries.map deletedJson)),
      ("total_deleted", .integer entries.length)])
  | sessionStarted words =>
    some (.object [("status", .string "session_started"), ("words", .integer words)])
  | exported path words =>
    some (.object [("path", .string path), ("status", .string "success"),
      ("words", .integer words)])
  | settings path stored =>
    some (.object [("config", (stored.getD {}).json), ("exists", .bool stored.isSome),
      ("path", .string path)])
  | settingChanged path key value =>
    some (.object [("key", .string key), ("path", .string path), ("status", .string "success"),
      ("value", .string value)])
  | settingsPath path isStored =>
    some (.object [("exists", .bool isStored), ("path", .string path)])
  | dump _ | completions _ | overview => none

def editedText (colors : Bool) (e : Entry) (parts : List Part) : String :=
  "Updated: " ++ Report.contentText colors e.word.content ++ " (" ++ shortKey e.key ++ "): " ++
    ", ".intercalate (parts.map Part.name) ++ "\n"

def reviewedText (colors : Bool) (r : Entry × Bool) : String :=
  let word := Report.contentText colors r.1.word.content ++ " (" ++ shortKey r.1.key ++ ")"
  if r.2 then "Reviewed: " ++ word ++ s!", {r.1.word.reviewCount.toNat} review(s)\n"
  else "Already reviewed this session: " ++ word ++ "\n"

def deletedText (verbose : Bool) (entries : List Entry) : String :=
  String.join (entries.map fun e =>
    "Deleted: " ++ e.word.contentText ++ " (" ++ shortKey e.key ++ ")\n") ++
    if verbose && 1 < entries.length then s!"\n{entries.length} deleted\n" else ""

def settingLine (name : String) (value : Option String) : String :=
  value.elim "" fun v => "  " ++ name ++ ": " ++ v ++ "\n"

def storedText (s : Settings) : String :=
  "[store]\n" ++ settingLine "path" s.storePath ++
    "\n[output]\n" ++ settingLine "color" (s.color.map Settings.boolText) ++
    "\n[query]\n" ++ settingLine "default" s.defaultQuery

def settingsText (colors : Bool) (path : String) (stored : Option Settings) : String :=
  Report.styled colors (Report.bold ∘ Report.green) "Configuration" ++ "\n\n" ++
    "File: " ++ path ++ "\n" ++
    "Exists: " ++ Settings.boolText stored.isSome ++ "\n\n" ++
    stored.elim
      "(No config file exists. Run 'vocab config set <key> <value>' to create one.)\n" storedText

def text (v : View) : Outcome → String
  | created entries => Report.created entries v.colors
  | listed entries => Report.table entries v.colors v.now
  | edited entry parts => editedText v.colors entry parts
  | unchanged fragment => "No changes specified for word " ++ fragment ++ "\n"
  | reviewed results => String.join (results.map (reviewedText v.colors))
  | deleted entries => deletedText v.verbose entries
  | sessionStarted words => s!"New session started ({words} words).\n"
  | dump text => text ++ "\n"
  | exported path _ => "Exported to " ++ path ++ "\n"
  | settings path stored => settingsText v.colors path stored
  | settingChanged _ key value => "Set " ++ key ++ " = " ++ value ++ "\n"
  | settingsPath path _ => path ++ "\n"
  | completions _ => ""
  | overview => "vocab - vocabulary collector\nUse --help for usage information\n"

/-- What was asked for by itself is shown even to those who want quiet. -/
def isEssential : Outcome → Bool
  | dump _ | settingsPath _ _ => true
  | _ => false

def render (v : View) (o : Outcome) : String :=
  match (if v.json then o.json? else none) with
  | some j => j.pretty ++ "\n"
  | none => if v.quiet && !o.isEssential then "" else o.text v

end Outcome

end Wordhoard.Command

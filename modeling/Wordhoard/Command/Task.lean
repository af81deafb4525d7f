import Wordhoard.Arguments.Reader
import Wordhoard.Command.Words
import Wordhoard.Settings.File

/-! Tasks for the program, and the command lines that name them. -/
namespace Wordhoard.Command

open Arguments (Form Given Level Matched Operand Refusal Switch)

inductive Shell where
  | bash
  | zsh
  | fish
  | powershell
  deriving DecidableEq, Repr

namespace Shell

def all : List Shell := [bash, zsh, fish, powershell]

def name : Shell → String
  | bash => "bash"
  | zsh => "zsh"
  | fish => "fish"
  | powershell => "powershell"

end Shell

inductive WordTask where
  | query (text : Option String)
  | add (content : String) (description : Option String) (tags : List String)
  | list (limit : Option Nat) (unreviewed : Bool)
  | review (keys : List String)
  | edit (key : String) (edit : Edit)
  | delete (keys : List String) (force : Bool)
  | session
  | dump (output : Option String)
  deriving DecidableEq, Repr

inductive Task where
  | words (task : WordTask)
  | showSettings
  | changeSetting (key value : String)
  | settingsPath
  | completions (shell : Shell)
  | overview
  deriving DecidableEq, Repr

structure Preferences where
  verbose : Bool := false
  quiet : Bool := false
  json : Bool := false
  noColor : Bool := false
  store : Option String := none
  deriving DecidableEq, Repr

def everywhere (store : Option String) : List Switch :=
  [{ name := "verbose", letter := some 'v' },
    { name := "quiet", letter := some 'q', rivals := ["verbose"] },
    { name := "json" },
    { name := "no-color" },
    { name := "store", kind := .value .nonempty, fallback := store },
    { name := "help", letter := some 'h', kind := .help },
    { name := "version", letter := some 'V', kind := .version }]

def text (name : String) (letter : Char) : Switch :=
  { name, letter := some letter, kind := .value .any }

def tags : Switch := { name := "tag", letter := some 't', kind := .values .any }

def grammar (store : Option String) : Level :=
  let level (switches : List Switch) (operands : List Operand) : Level :=
    .mk (everywhere store ++ switches) operands []
  let keys : Operand := { name := "keys", many := true }
  .mk (everywhere store) [] [
    (["query", "q"], level [] [{ name := "text", required := false }]),
    (["add", "a"], level [text "description" 'd', tags] [{ name := "content" }]),
    (["list", "l"], level
      [{ name := "limit", kind := .value .count }, { name := "unreviewed" }] []),
    (["review", "r"], level [] [keys]),
    (["edit", "e"], level
      [text "content" 'c', text "description" 'd', tags,
        { name := "add-tag", kind := .value .any, rivals := ["tag"] },
        { name := "remove-tag", kind := .value .any, rivals := ["tag"] }]
      [{ name := "key" }]),
    (["delete", "rm"], level [{ name := "force", letter := some 'f' }] [keys]),
    (["session"], level [] []),
    (["export"], level [{ name := "output", letter := some 'o', kind := .value .nonempty }] []),
    (["config"], .mk (everywhere store) [] [
      (["show"], level [] []),
      (["set"], level [] [{ name := "key" }, { name := "value" }]),
      (["path"], level [] [])]),
    (["completions"], level [] [{ name := "shell", form := .oneOf (Shell.all.map Shell.name) }])]

def Task.of? (commands : List String) (given : Given) : Option Task := do
  match commands with
  | [] => return .overview
  | ["query"] => return .words (.query (given.value? "text"))
  | ["add"] =>
    return .words (.add (← given.value? "content") (given.value? "description")
      (given.values "tag"))
  | ["list"] =>
    return .words (.list ((given.value? "limit").bind Arguments.count?) (given.has "unreviewed"))
  | ["review"] => return .words (.review (given.values "keys"))
  | ["edit"] =>
    return .words (.edit (← given.value? "key")
      ⟨given.value? "content", given.value? "description", given.values "tag",
        given.value? "add-tag", given.value? "remove-tag"⟩)
  | ["delete"] => return .words (.delete (given.values "keys") (given.has "force"))
  | ["session"] => return .words .session
  | ["export"] => return .words (.dump (given.value? "output"))
  | ["config"] => return .showSettings
  | ["config", "show"] => return .showSettings
  | ["config", "set"] => return .changeSetting (← given.value? "key") (← given.value? "value")
  | ["config", "path"] => return .settingsPath
  | ["completions"] =>
    return .completions (← Shell.all.find? fun s => given.value? "shell" = some s.name)
  | _ => none

/-- Flags count on any level. The store of the last level that names one counts. -/
def Preferences.of (store : Option String) (levels : List Matched) : Preferences :=
  let anywhere (name : String) := levels.any (·.given.has name)
  { verbose := anywhere "verbose"
    quiet := anywhere "quiet"
    json := anywhere "json"
    noColor := anywhere "no-color"
    store := levels.reverse.findSome? (·.given.value? "store") <|> store }

def readLine (e : Environment) (arguments : List String) : Except Refusal (Preferences × Task) := do
  let levels ← (grammar e.store).read "" {} arguments
  let commands := (levels.drop 1).map (·.command)
  match Task.of? commands ((levels.getLast?.map (·.given)).getD []) with
  | some task => return (.of e.store levels, task)
  | none => throw .unknownCommand

end Wordhoard.Command

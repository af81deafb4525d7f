import Wordhoard.Command.Outcome

/-! Running tasks, and what a run prints. -/
namespace Wordhoard.Command

open Files (Program Request)
open Store (Surroundings)

variable {ρ : Type} [RandomSource ρ]

def Outcome.ofQuery : Store.QueryReport → Outcome
  | .inserted entries => created entries
  | .listed entries => listed entries
  | .session entries => sessionStarted entries.length
  | .dump text => dump text

def isPrinted (path : String) : Bool := Files.trailing path = ["-"]

def exportTo (path output : String) : Action Outcome := do
  let text ← .ofStore (Store.exportText path)
  if isPrinted output then return .dump text
  else
    match ← (Program.request (.write output text.toUTF8) : Program _) with
    | .error _ => throw .file
    | .ok () => return .exported output (← .ofStore (Store.size path))

def WordTask.run (path : String) (settings : Settings) (s : Surroundings) (r : ρ) :
    WordTask → Action Outcome
  | query text => do
    let text := text.getD (settings.defaultQuery.getD "")
    let (report, _) ← .ofQuery text (Store.query path s r text)
    return .ofQuery report
  | add content description tags => return .created (← Command.add path s content description tags)
  | list limit unreviewed => return .listed (← Command.list path limit unreviewed)
  | review keys => return .reviewed (← Command.review path keys s.now)
  | edit key e => do
    match ← Command.edit path key e with
    | some (entry, parts) => return .edited entry parts
    | none => return .unchanged key
  | delete keys force => return .deleted (← Command.delete path keys force)
  | session => return .sessionStarted (← startSession path s.now)
  | dump output => exportTo path (output.getD (Report.exportName s.now))

def settingsFile (e : Environment) : Action String :=
  match e.settingsPath? with
  | some path => return path
  | none => throw (.settings .noDirectory)

/-- Where the collection is: at a place that is named, else where the settings say, else at the
usual place. -/
def storeFile (e : Environment) (p : Preferences) (settings : Settings) : Action String :=
  match p.store <|> settings.storePath <|> e.collectionPath? with
  | some path => return path
  | none => throw (.store .noDataDirectory)

def isStored (path : String) : Action Bool := ExceptT.lift (Program.request (.exists path))

def Task.settings (e : Environment) : Task → Action Settings
  | words _ => do .ofSettings (Settings.load (← settingsFile e))
  | _ => return {}

def Task.run (e : Environment) (p : Preferences) (settings : Settings) (s : Surroundings)
    (r : ρ) : Task → Action Outcome
  | words task => do task.run (← storeFile e p settings) settings s r
  | showSettings => do
    let path ← settingsFile e
    let settings ← .ofSettings (Settings.load path)
    return .settings path (if ← isStored path then some settings else none)
  | changeSetting key value => do
    let path ← settingsFile e
    .ofSettings (Settings.change path key value)
    return .settingChanged path key value
  | settingsPath => do
    let path ← settingsFile e
    return .settingsPath path (← isStored path)
  | completions shell => return .completions shell
  | overview => return .overview

def View.of (e : Environment) (p : Preferences) (settings : Settings) (now : Time.Instant) :
    View where
  json := p.json
  quiet := p.quiet
  verbose := p.verbose
  colors := !p.noColor && !e.noColor && settings.color ≠ some false
  now := now

structure Transcript where
  result : Except Error Outcome
  out : String := ""
  err : String := ""

/-- A run that failed. A query is shown with the place where it went wrong, unless another program
or nobody looks at it. -/
def Transcript.failed (p : Preferences) (e : Error) : Transcript where
  result := .error e
  err := if p.json || p.quiet then "" else e.pointer?.getD ""

def Transcript.exitStatus (t : Transcript) : UInt8 :=
  match t.result with
  | .ok _ => 0
  | .error e => e.exitStatus

def Error.text (json : Bool) (e : Error) : String :=
  if json then
    (Json.object [("error", .object [("code", .string e.code), ("message", .string e.message)])]
      ).pretty ++ "\n"
  else "Error: " ++ e.message ++ "\n"

def run (e : Environment) (p : Preferences) (s : Surroundings) (r : ρ) (task : Task) :
    Program Transcript := do
  let shown : Action (Outcome × View) := do
    let settings ← task.settings e
    return (← task.run e p settings s r, .of e p settings s.now)
  match ← shown.run with
  | .ok (outcome, view) => return { result := .ok outcome, out := outcome.render view }
  | .error error => return .failed p error

end Wordhoard.Command

import Std.Time.DateTime.Timestamp
import Wordhoard.Collection.FreshKey
import Wordhoard.Command.Run
import Wordhoard.Command.Usage

/-! The program: arguments, environment and clock go in, files change, and what was printed comes
out. -/
namespace Wordhoard

open Files (Fault Program Request)

variable {α : Type}

def faultOf : IO.Error → Fault
  | .noFileOrDirectory .. => .missing
  | _ => .other

def attemptFile (action : IO α) : IO (Except Fault α) := do
  try return .ok (← action) catch e => return .error (faultOf e)

def answerRequest : (r : Request) → IO r.Reply
  | .read path => attemptFile (IO.FS.readBinFile path)
  | .exists path => do return (← attemptFile (IO.FS.realPath path)).isOk
  | .write path content => attemptFile (IO.FS.writeBinFile path content)
  | .createDirectories path =>
    if path = "" then return .ok () else attemptFile (IO.FS.createDirAll path)
  | .rename source target => attemptFile (IO.FS.rename source target)
  | .remove path => attemptFile (IO.FS.removeFile path)

def perform : Program α → IO α
  | .done a => return a
  | .ask r next => do perform (next (← answerRequest r))

def readEnvironment : IO Environment := do
  return {
    store := ← IO.getEnv "VOCAB_STORE"
    settings := ← IO.getEnv "VOCAB_CONFIG"
    configHome := ← IO.getEnv "XDG_CONFIG_HOME"
    dataHome := ← IO.getEnv "XDG_DATA_HOME"
    home := ← IO.getEnv "HOME"
    noColor := (← IO.getEnv "NO_COLOR").isSome }

def randomSeed : IO Random := do
  let bytes ← IO.getRandomBytes 8
  return ⟨bytes.toList.foldl (fun n b => n * 256 + b.toUInt64) 0⟩

def runTask (e : Environment) (p : Command.Preferences) (task : Command.Task) : IO UInt32 := do
  let nanoseconds := (← Std.Time.Timestamp.now).toNanosecondsSinceUnixEpoch.val
  let now := Time.Instant.ofNanoseconds nanoseconds
  let r ← randomSeed
  let s : Store.Surroundings := ⟨now, freshKey (nanoseconds / 1000000).toNat (← randomSeed)⟩
  let t ← perform (Command.run e p s r task)
  IO.print t.out
  IO.eprint t.err
  match t.result with
  | .ok _ => pure ()
  | .error error => IO.eprint (error.text p.json)
  return t.exitStatus.toUInt32

def runProgram (args : List String) : IO UInt32 := do
  let e ← readEnvironment
  match Command.readLine e args with
  | .ok (p, task) => runTask e p task
  | .error refusal =>
    if refusal.exitStatus = 0 then IO.print (Command.refusalText refusal)
    else IO.eprint (Command.refusalText refusal)
    return refusal.exitStatus.toUInt32

end Wordhoard

def main (args : List String) : IO UInt32 := Wordhoard.runProgram args

import Wordhoard.Arguments.Basic

/-! Reading a command line from left to right. Values wait until the argument after them is
understood, and the first refusal counts. What a level lacks and what conflicts on it shows at its
end. -/
namespace Wordhoard.Arguments

structure Waiting where
  name : String
  form : Form
  many : Bool
  open? : Bool := false
  values : List String := []

structure State where
  given : Given := []
  waiting : Option Waiting := none
  operands : Nat := 0
  trailing : Bool := false

def checkAll (form : Form) (values : List String) : Except Refusal Unit :=
  values.forM form.check

def Waiting.settle (w : Waiting) (given : Given) : Except Refusal Given := do
  if w.values.isEmpty then .error .badValue
  else if !w.many && given.has w.name then .error .conflict
  else
    checkAll w.form w.values
    return given ++ w.values.map (w.name, ·)

namespace State

def settle (s : State) : Except Refusal State :=
  match s.waiting with
  | none => .ok s
  | some w => (w.settle s.given).map fun given => { s with given, waiting := none }

def expectsValue (s : State) : Bool := s.waiting.any (·.open?)

def takeFlag (s : State) (name : String) : Except Refusal State := do
  let s ← s.settle
  if s.given.has name then .error .conflict
  else return { s with given := s.given ++ [(name, "")] }

def takeOption (s : State) (name : String) (form : Form) (many : Bool) (value : Option String) :
    Except Refusal State := do
  let s ← s.settle
  match value with
  | none => return { s with waiting := some { name, form, many, open? := true } }
  | some v => State.settle { s with waiting := some { name, form, many, values := [v] } }

def takeSwitch (s : State) (w : Switch) (value : Option String) : Except Refusal State :=
  match w.kind with
  | .value form => s.takeOption w.name form false value
  | .values form => s.takeOption w.name form true value
  | .flag => if value.isSome then .error .unwantedValue else s.takeFlag w.name
  | .help =>
    if value.isSome then .error .unwantedValue else s.settle.bind fun _ => .error .help
  | .version =>
    if value.isSome then .error .unwantedValue else s.settle.bind fun _ => .error .version

/-- Letters of options after a single dash. The first option with a value takes what is left. -/
def takeLetters (l : Level) : List Char → State → Except Refusal State
  | [], s => .ok s
  | c :: rest, s =>
    match l.switches.find? (·.letter = some c) with
    | none => .error .unknownArgument
    | some w =>
      if w.kind.takesValue then
        match rest with
        | [] => s.takeSwitch w none
        | '=' :: value => s.takeSwitch w (some (.ofList value))
        | value => s.takeSwitch w (some (.ofList value))
      else do
        let s ← s.takeSwitch w none
        takeLetters l rest s

def takeName (l : Level) (s : State) (text : List Char) : Except Refusal State :=
  let (name, value) := text.span (· ≠ '=')
  match l.switches.find? (·.name = String.ofList name) with
  | none => .error .unknownArgument
  | some w => s.takeSwitch w (value.tail?.map String.ofList)

def takeValue (s : State) (value : String) : State :=
  { s with waiting := s.waiting.map fun w => { w with values := [value], open? := false } }

def takeOperand (l : Level) (s : State) (value : String) : Except Refusal State :=
  match l.operands[s.operands]? with
  | none =>
    .error (if l.hasCommands && !s.trailing then .unknownCommand else .unknownArgument)
  | some o =>
    match s.waiting.filter fun w => o.many && w.name = o.name with
    | some w => .ok { s with waiting := some { w with values := w.values ++ [value] } }
    | none => do
      let s ← s.settle
      return { s with
        waiting := some { name := o.name, form := o.form, many := o.many, values := [value] }
        operands := if o.many then s.operands else s.operands + 1 }

def take (l : Level) (s : State) (argument : String) : Except Refusal State :=
  if s.trailing then s.takeOperand l argument
  else
    match argument.toList with
    | ['-', '-'] => .ok { s with trailing := true }
    | '-' :: '-' :: text => s.takeName l text
    | '-' :: c :: letters => takeLetters l (c :: letters) s
    | _ => if s.expectsValue then .ok (s.takeValue argument) else s.takeOperand l argument

end State

/-- Values that stand for options that do not occur are checked like others. -/
def checkFallback (given : Given) (w : Switch) : Except Refusal Unit :=
  match w.fallback, w.kind with
  | some v, .value form => if given.has w.name then .ok () else form.check v
  | _, _ => .ok ()

def checkRivals (given : Given) (w : Switch) : Except Refusal Unit :=
  if given.has w.name && w.rivals.any given.has then .error .conflict else .ok ()

def checkRequired (given : Given) (o : Operand) : Except Refusal Unit :=
  if o.required && !given.has o.name then .error .missingOperand else .ok ()

def Level.finish (l : Level) (s : State) : Except Refusal Given := do
  let s ← s.settle
  l.switches.forM (checkFallback s.given)
  l.switches.forM (checkRivals s.given)
  l.operands.forM (checkRequired s.given)
  return s.given

/-- The commands that help is asked for, one below the other. Help is a command itself wherever
there are commands, and none is below it. -/
def Level.helpOn (l : Level) : List String → Refusal
  | [] => .help
  | name :: rest =>
    match l.command? name with
    | some (_, below) => below.helpOn rest
    | none => if name = "help" && l.hasCommands && rest.isEmpty then .help else .unknownCommand

def Level.read (l : Level) (command : String) (s : State) :
    List String → Except Refusal (List Matched)
  | [] => (l.finish s).map fun given => [⟨command, given⟩]
  | argument :: rest =>
    let free := !s.trailing && !s.expectsValue
    match if free then l.command? argument else none with
    | some (name, below) => do
      let deeper ← below.read name {} rest
      let given ← l.finish s
      return ⟨command, given⟩ :: deeper
    | none =>
      if free && l.hasCommands && argument = "help" then .error (l.helpOn rest)
      else do
        let s ← s.take l argument
        l.read command s rest

end Wordhoard.Arguments

import Wordhoard.Text.Digits

/-! Grammars of command lines. A line goes through levels: each has options, and either operands or
commands, and a command leads to a level of its own. -/
namespace Wordhoard.Arguments

inductive Form where
  | any
  | nonempty
  | count
  | oneOf (words : List String)
  deriving DecidableEq, Repr

inductive Refusal where
  | unknownArgument
  | unknownCommand
  | missingOperand
  | badValue
  | badNumber
  | conflict
  | unwantedValue
  | help
  | version
  deriving DecidableEq, Repr

def Refusal.exitStatus : Refusal → UInt8
  | help | version => 0
  | _ => 2

def count? (s : String) : Option Nat :=
  let digits := match s.toList with
    | '+' :: rest => rest
    | all => all
  if digits.isEmpty || !digits.all Char.isDigit then none
  else
    let n := Text.decimal digits
    if n < UInt64.size then some n else none

def Form.check (value : String) : Form → Except Refusal Unit
  | any => .ok ()
  | nonempty => if value = "" then .error .badValue else .ok ()
  | count => if (count? value).isSome then .ok () else .error .badNumber
  | oneOf words => if words.contains value then .ok () else .error .badValue

inductive Kind where
  | flag
  | value (form : Form)
  | values (form : Form)
  | help
  | version
  deriving DecidableEq, Repr

def Kind.takesValue : Kind → Bool
  | value _ | values _ => true
  | _ => false

structure Switch where
  name : String
  letter : Option Char := none
  kind : Kind := .flag
  rivals : List String := []
  fallback : Option String := none

structure Operand where
  name : String
  form : Form := .any
  required : Bool := true
  many : Bool := false

inductive Level where
  | mk (switches : List Switch) (operands : List Operand) (commands : List (List String × Level))

namespace Level

def switches : Level → List Switch
  | mk s _ _ => s

def operands : Level → List Operand
  | mk _ o _ => o

def commands : Level → List (List String × Level)
  | mk _ _ c => c

def command? (l : Level) (name : String) : Option (String × Level) :=
  (l.commands.find? fun c => c.1.contains name).map fun c => (c.1.headD name, c.2)

def hasCommands (l : Level) : Bool := !l.commands.isEmpty

end Level

/-- Values by the name of their option or operand, in order. A flag has an empty value. -/
abbrev Given := List (String × String)

structure Matched where
  command : String
  given : Given

def Given.has (g : Given) (name : String) : Bool := g.any (·.1 = name)

def Given.values (g : Given) (name : String) : List String :=
  (g.filter (·.1 = name)).map (·.2)

def Given.value? (g : Given) (name : String) : Option String := g.lookup name

end Wordhoard.Arguments

import Wordhoard.Token.Basic

/-! What a grammar would have taken where it was refused. Of two refusals the one further into the
text counts, and at one place the descriptions add up in the order in which they arose. -/
namespace Wordhoard

structure Expectation where
  position : Text.Position
  found : Option String
  expected : List String
  deriving DecidableEq, Repr

namespace Expectation

variable {κ : Type}

def here (c : Cursor κ) (description : String) : Expectation :=
  ⟨c.position, c.found, [description]⟩

def addUnseen (first second : List String) : List String :=
  second.foldl (fun seen d => if d ∈ seen then seen else seen ++ [d]) first

def merge (a b : Expectation) : Expectation :=
  if a.position.index < b.position.index then b
  else if b.position.index < a.position.index then a
  else { a with expected := addUnseen a.expected b.expected }

def mergeWith (a : Expectation) : Option Expectation → Expectation
  | none => a
  | some b => a.merge b

def later : Option Expectation → Option Expectation → Option Expectation
  | none, b => b
  | some a, b => some (a.mergeWith b)

def foundText : Option String → String
  | some text => "'" ++ text ++ "'"
  | none => "end of input"

def message (e : Expectation) : String :=
  "expected " ++ " or ".intercalate e.expected ++ " at " ++ e.position.text ++ ", found " ++
    foundText e.found

end Expectation

inductive Failure where
  | tokenize (error : TokenizeError)
  | expected (expectation : Expectation)
  /-- The grammar calls itself, or repeats itself, without ever taking a token. -/
  | endless
  deriving DecidableEq, Repr

/-- Only a refusal takes in what was refused before. -/
def Failure.mergeWith (f : Failure) (before : Option Expectation) : Failure :=
  match f with
  | expected e => expected (e.mergeWith before)
  | f => f

/-- A value, the cursor after it, and the furthest refusal met on the way. -/
structure Parsed (κ α : Type) where
  value : α
  rest : Cursor κ
  furthest : Option Expectation

abbrev Outcome (κ α : Type) := Except Failure (Parsed κ α)

end Wordhoard

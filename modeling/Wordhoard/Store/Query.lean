import Wordhoard.Query.Evaluate
import Wordhoard.Query.Parser
import Wordhoard.Store.Records

/-! Queries on the stored collection. -/
namespace Wordhoard.Store

inductive QueryError where
  | parse (error : Query.ParseError)
  | evaluate (error : Query.EvaluateError)
  | store (error : Error)
  deriving DecidableEq, Repr

inductive QueryReport where
  | inserted (entries : List Entry)
  | listed (entries : List Entry)
  | session (entries : List Entry)
  | dump (text : String)
  deriving DecidableEq

structure Surroundings where
  now : Time.Instant
  newKey : Nat → String

abbrev QueryAction (α : Type) := ExceptT QueryError Files.Program α

variable {α ρ : Type} [RandomSource ρ]

def QueryAction.ofStore (a : Action α) : QueryAction α := a.adapt .store

def snapshot (path : String) (now : Time.Instant) : Query → QueryAction (List Entry)
  | .filter condition _ => .ofStore (list path (condition.holds now))
  | _ => return []

/-- Runs a query that was read. A filter loads only the words that it matches. -/
def runQuery (path : String) (s : Surroundings) (r : ρ) (q : Query) :
    QueryAction (QueryReport × ρ) := do
  let entries ← snapshot path s.now q
  match Query.evaluate s.now Entry.word q entries r with
  | .error e => throw (.evaluate e)
  | .ok (result, r) =>
    match result with
    | .inserted words => return (.inserted (← .ofStore (create path s.newKey words)), r)
    | .listed entries => return (.listed entries, r)
    | .sessionReset =>
      .ofStore (resetSession path s.now)
      return (.session (← .ofStore (list path fun _ => true)), r)
    | .dumpRequested => return (.dump (← .ofStore (exportText path)), r)

def query (path : String) (s : Surroundings) (r : ρ) (text : String) :
    QueryAction (QueryReport × ρ) :=
  match Query.parse text with
  | .error e => throw (.parse e)
  | .ok q => runQuery path s r q

end Wordhoard.Store

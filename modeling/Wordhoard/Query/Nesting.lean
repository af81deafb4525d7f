import Wordhoard.Query.Token

/-! Bounds on the shape of a query, found on its tokens. Every opening parenthesis and every
negation in a chain of negations opens a level, and a closing parenthesis closes the levels of its
group. -/
namespace Wordhoard.Query

def maxNesting : Nat := 32

def maxOperators : Nat := 256

structure Levels where
  /-- The levels that each open parenthesis closes, innermost first. -/
  groups : List Nat := []
  depth : Nat := 0
  negations : Nat := 0
  operators : Nat := 0

inductive Excess where
  | tooDeep (position : Text.Position)
  | tooLong (position : Text.Position)
  deriving DecidableEq, Repr

def isWord (t : Token Kind) (word : String) : Bool :=
  t.kind = .ident && sameIgnoringCase t.text word

def Levels.next (l : Levels) (t : Token Kind) : Levels :=
  if t.kind = .bang || isWord t "not" then { l with negations := l.negations + 1 }
  else if t.kind = .openParen then
    { l with groups := (l.negations + 1) :: l.groups, depth := l.depth + (l.negations + 1),
             negations := 0 }
  else if t.kind = .closeParen then
    match l.groups with
    | levels :: groups => { l with groups, depth := l.depth - levels, negations := 0 }
    | [] => { l with negations := 0 }
  else if t.kind = .amp || isWord t "and" || isWord t "or" then
    { l with operators := l.operators + 1, negations := 0 }
  else { l with negations := 0 }

def excess? (l : Levels) : List (Token Kind) → Option Excess
  | [] => none
  | t :: rest =>
    let l := l.next t
    if maxOperators < l.operators then some (.tooLong t.position)
    else if maxNesting < l.depth + l.negations then some (.tooDeep t.position)
    else excess? l rest

end Wordhoard.Query

/-! The edit distance with transpositions: insertions, deletions, substitutions and swaps of two
characters with anything inserted or deleted between them, each of cost one.

The table is built from the ends of both texts. A row belongs to a suffix of the first text and
holds its distances to all suffixes of the second one, longest first. -/
namespace Wordhoard.Text.EditDistance

/-- The rows of all proper suffixes of the first text, each with the character before it. -/
abbrev Rows := List (Char × List Nat)

def splitAt? (c : Char) : List Char → Option (Nat × List Char)
  | [] => none
  | d :: rest => if d = c then some (0, rest) else (splitAt? c rest).map fun (n, r) => (n + 1, r)

def rowAt? (c : Char) : Rows → Option (Nat × List Nat)
  | [] => none
  | (d, row) :: rest =>
    if d = c then some (0, row) else (rowAt? c rest).map fun (n, r) => (n + 1, r)

def entry (row : List Nat) (length : Nat) : Nat := row.getD (row.length - 1 - length) 0

def swapCost? (x y : Char) (rows : Rows) (b : List Char) : Option Nat :=
  match rowAt? y rows, splitAt? x b with
  | some (skippedA, row), some (skippedB, after) =>
    some (entry row after.length + skippedA + 1 + skippedB)
  | _, _ => none

def nextRow (x : Char) (rows : Rows) : List Char → List Nat → List Nat
  | y :: b, deleted :: below =>
    let row := nextRow x rows b below
    let substituted := below.headD 0 + if x = y then 0 else 1
    let best := min substituted (min (deleted + 1) (row.headD 0 + 1))
    ((swapCost? x y rows b).elim best (min best)) :: row
  | _, below => below.map (· + 1)

/-- The row of a text, and the rows of its proper suffixes. -/
def table (b : List Char) : List Char → List Nat × Rows
  | [] => ((List.range (b.length + 1)).reverse, [])
  | x :: a =>
    let (below, rows) := table b a
    (nextRow x rows b below, (x, below) :: rows)

def distance (a b : List Char) : Nat := (table b a).1.headD 0

/-- The distance, if it is at most `limit`. It is never less than the difference of the lengths. -/
def within? (limit : Nat) (a b : List Char) : Option Nat :=
  if a.length > b.length + limit || b.length > a.length + limit then none
  else
    let d := distance a b
    if d ≤ limit then some d else none

end Wordhoard.Text.EditDistance

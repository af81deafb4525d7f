import Wordhoard.Word.Basic

/-! Queries on a collection of words. -/
namespace Wordhoard.Query

inductive Field where
  | reviews
  /-- Whole days since the last review, infinitely many if there was none. -/
  | days
  deriving DecidableEq, Repr

inductive Comparison where
  | eq
  | ne
  | lt
  | le
  | gt
  | ge
  deriving DecidableEq, Repr

def Comparison.ofSymbol? : String → Option Comparison
  | "=" | "==" => some eq
  | "!=" => some ne
  | "<" => some lt
  | "<=" => some le
  | ">" => some gt
  | ">=" => some ge
  | _ => none

/-- Compares with a bound. A missing value is greater than every number. -/
def Comparison.holds : Comparison → Option Int → Int → Bool
  | eq, some a, b => a == b
  | ne, some a, b => a != b
  | lt, some a, b => a < b
  | le, some a, b => a ≤ b
  | gt, some a, b => b < a
  | ge, some a, b => b ≤ a
  | eq, none, _ => false
  | ne, none, _ => true
  | lt, none, _ => false
  | le, none, _ => false
  | gt, none, _ => true
  | ge, none, _ => true

inductive Condition where
  | all
  | reviewed
  | hasTag (tag : String)
  | contentContains (needle : String)
  | descriptionContains (needle : String)
  | textContains (needle : String)
  | compare (field : Field) (comparison : Comparison) (bound : Int)
  | and (left right : Condition)
  | or (left right : Condition)
  | not (inner : Condition)
  deriving DecidableEq, Repr

inductive SortKey where
  | reviews
  | lastReviewed
  | word
  | description
  deriving DecidableEq, Repr

inductive Direction where
  | ascending
  | descending
  deriving DecidableEq, Repr

inductive Step where
  | limit (count : Nat)
  | skip (count : Nat)
  | sort (key : SortKey) (direction : Direction)
  | shuffle
  | reverse
  deriving DecidableEq, Repr

end Query

inductive Query where
  | insert (definitions : List Definition)
  | filter (condition : Query.Condition) (steps : List Query.Step)
  | session
  | dump
  deriving DecidableEq

end Wordhoard

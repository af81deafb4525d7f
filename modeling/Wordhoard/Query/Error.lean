import Wordhoard.Markup.Basic
import Wordhoard.Query.Nesting
import Wordhoard.Text.EditDistance
import Wordhoard.Text.Lowercase

/-! Errors of queries, and the keyword that was probably meant. -/
namespace Wordhoard.Query

def keywords : List String :=
  ["insert", "session", "dump", "export", "all", "reviewed", "and", "or", "not", "tag", "word",
    "content", "desc", "description", "text", "reviews", "days", "limit", "skip", "sort",
    "shuffle", "reverse", "last", "asc"]

def closest : List (Nat × String) → Option (Nat × String)
  | [] => none
  | c :: rest =>
    match closest rest with
    | none => some c
    | some d => if d.1 < c.1 then some d else some c

/-- A keyword close to a word that is none: at most two edits away, or one if the word is short. -/
def suggest (word : String) : Option String :=
  let lower := Text.lowercase word
  if keywords.contains lower then none
  else
    let limit := if lower.length < 5 then 1 else 2
    let near := keywords.filterMap fun k =>
      (Text.EditDistance.within? limit lower.toList k.toList).map (·, k)
    (closest near).map (·.2)

inductive ParseError where
  | tokenize (error : TokenizeError)
  | refused (expectation : Expectation)
  | excess (excess : Excess)
  | markup (position : Text.Position) (error : Markup.Error)
  deriving DecidableEq, Repr

namespace ParseError

def position : ParseError → Text.Position
  | tokenize e => e.position
  | refused e => e.position
  | excess (.tooDeep p) => p
  | excess (.tooLong p) => p
  | markup p _ => p

def suggestion (e : Expectation) : Option String := e.found.bind suggest

def suggestionText : Option String → String
  | some k => " (did you mean '" ++ k ++ "'?)"
  | none => ""

def message : ParseError → String
  | tokenize e => e.message
  | refused e =>
    "syntax error at " ++ e.position.text ++ ": expected " ++ " or ".intercalate e.expected ++
      ", found " ++ Expectation.foundText e.found ++ suggestionText (suggestion e)
  | excess (.tooDeep p) => s!"query nests more than {maxNesting} levels deep at {p.text}"
  | excess (.tooLong p) => s!"query combines more than {maxOperators} conditions at {p.text}"
  | markup p e => "invalid word content at " ++ p.text ++ ": " ++ e.message

end ParseError

end Wordhoard.Query

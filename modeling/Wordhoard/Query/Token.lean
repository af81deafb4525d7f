import Wordhoard.Grammar.Basic
import Wordhoard.Token.Rule

/-! The tokens of the query language. An operator of two characters stands in the table before its
first character. -/
namespace Wordhoard.Query

inductive Kind where
  | whitespace
  | string
  | number
  | compare
  | bang
  | amp
  | pipe
  | semicolon
  | comma
  | openParen
  | closeParen
  | colon
  | star
  | plus
  | tag
  | ident
  deriving DecidableEq, Repr

instance : TokenKind Kind where
  describe
    | .whitespace => "whitespace"
    | .string => "string"
    | .number => "number"
    | .compare => "comparison operator"
    | .bang => "'!'"
    | .amp => "'&'"
    | .pipe => "'|'"
    | .semicolon => "';'"
    | .comma => "','"
    | .openParen => "'('"
    | .closeParen => "')'"
    | .colon => "':'"
    | .star => "'*'"
    | .plus => "'+'"
    | .tag => "tag"
    | .ident => "identifier"

open Pattern (CharSet)

def stringPattern : Pattern :=
  let quote := Pattern.one (.single '"')
  let bare := Pattern.one (.complement (.ofList ['"', '\\']))
  let escaped := Pattern.seq (.one (.single '\\')) (.one (.complement (.single '\n')))
  .seq quote (.seq (.loop (.either bare escaped) true 0 none) quote)

def comparePattern : Pattern :=
  ["!=", "<=", ">=", "==", "=", "<"].foldr (fun s p => .either (.literal s.toList) p)
    (.literal ['>'])

def tagEnd : CharSet := .union .blank (.ofList ['#', ';', '|', ',', '(', ')', ':', '"'])

def identStart : CharSet := .union .letter (.single '_')

def identPart : CharSet := .union identStart (.union .numeral (.single '-'))

def rules : List (Rule Kind) :=
  let rule (keep : Bool) (p : Pattern) (kind : Kind) : Rule Kind := ⟨keep, .seq .textStart p, kind⟩
  let symbol (c : Char) (kind : Kind) := rule true (.one (.single c)) kind
  [rule false (.many1 .blank) .whitespace,
    rule true stringPattern .string,
    rule true (.many1 (.range '0' '9')) .number,
    rule true comparePattern .compare,
    symbol '!' .bang,
    symbol '&' .amp,
    symbol '|' .pipe,
    symbol ';' .semicolon,
    symbol ',' .comma,
    symbol '(' .openParen,
    symbol ')' .closeParen,
    symbol ':' .colon,
    symbol '*' .star,
    symbol '+' .plus,
    rule true (.seq (.one (.single '#')) (.many1 (.complement tagEnd))) .tag,
    rule true (.seq (.one identStart) (.many identPart)) .ident]

def dropBackslashes : List Char → List Char
  | [] => []
  | [c] => if c = '\\' then [] else [c]
  | c :: d :: rest =>
    if c = '\\' then d :: dropBackslashes rest else c :: dropBackslashes (d :: rest)

def unquote (literal : String) : String :=
  match literal.toList with
  | '"' :: rest =>
    if rest.getLast? = some '"' then String.ofList (dropBackslashes rest.dropLast)
    else String.ofList (dropBackslashes ('"' :: rest))
  | s => String.ofList (dropBackslashes s)

def tagName (t : Token Kind) : String := String.ofList (t.text.toList.dropWhile (· = '#'))

def stream (text : String) : Stream Kind := Rule.stream rules text

end Wordhoard.Query

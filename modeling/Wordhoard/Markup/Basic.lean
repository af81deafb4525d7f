import Wordhoard.Grammar.Basic
import Wordhoard.Token.Rule
import Wordhoard.Word.Basic

/-! The markup of a word's content: parentheses surround an optional piece. They do not nest, and
nothing stands for a parenthesis itself. -/
namespace Wordhoard.Markup

inductive Kind where
  | openParen
  | closeParen
  | text
  deriving DecidableEq, Repr

instance : TokenKind Kind where
  describe
    | .openParen => "'('"
    | .closeParen => "')'"
    | .text => "text"

def rules : List (Rule Kind) :=
  [⟨true, .seq .textStart (.one (.single '(')), .openParen⟩,
    ⟨true, .seq .textStart (.one (.single ')')), .closeParen⟩,
    ⟨true, .seq .textStart (.many1 (.complement (.ofList ['(', ')']))), .text⟩]

inductive Error where
  | tokenize (error : TokenizeError)
  | unbalanced (position : Text.Position) (found : Option String) (expected : List String)
  deriving DecidableEq, Repr

def Error.message : Error → String
  | tokenize e => e.message
  | unbalanced p found expected =>
    "unbalanced parentheses at " ++ p.text ++ ": expected " ++ " or ".intercalate expected ++
      ", found " ++ found.getD "end of input"

def Error.position : Error → Text.Position
  | tokenize e => e.position
  | unbalanced p _ _ => p

abbrev Reader (α : Type) := Grammar Kind (fun _ : Empty => Unit) α

def optionalPiece : Reader Piece :=
  .map (fun ((_, text), _) => .optional (text.elim "" Token.text))
    (.seq (.seq (.token .openParen) (.opt (.token .text))) (.token .closeParen))

def plainPiece : Reader Piece := .map (fun t => .plain t.text) (.token .text)

def content : Reader (List Piece) := .many (.either optionalPiece plainPiece) 0 none

/-- A failed run as an error. The grammar has no names and repeats no empty item. -/
def Error.ofFailure : Failure → Error
  | .tokenize e => tokenize e
  | .expected e => unbalanced e.position e.found e.expected
  | .endless => unbalanced Text.Mark.start.position none []

def parse (text : String) : Except Error (List Piece) :=
  match (Rule.stream rules text).enter with
  | .error e => .error (.tokenize e)
  | .ok c => (Grammar.parseAll Grammar.noRules content c).mapError Error.ofFailure

def renderPiece : Piece → String
  | .plain text => text
  | .optional text => "(" ++ text ++ ")"

def render (content : List Piece) : String := String.join (content.map renderPiece)

def insertParens (buffer : String) (cursor : Nat) : Option (String × Nat) :=
  (Text.splitBytes? cursor buffer.toList).map fun (before, after) =>
    (String.ofList (before ++ '(' :: ')' :: after), cursor + 1)

end Wordhoard.Markup

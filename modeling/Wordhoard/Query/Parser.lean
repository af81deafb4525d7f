import Wordhoard.Query.Basic
import Wordhoard.Query.Error
import Wordhoard.Text.Digits

/-! The grammar of queries. Negation binds closer than conjunction and conjunction closer than
disjunction; chains lean to the left. An empty query selects every word. -/
namespace Wordhoard.Query

inductive Name where
  | condition
  | unary
  deriving DecidableEq

abbrev Reader (α : Type) := Grammar Kind (fun _ : Name => Condition) α

namespace Reader

variable {α β : Type}

def word (text : String) : Reader (Token Kind) := .keyword .ident text

def means (value : α) (g : Reader β) : Reader α := .map (fun _ => value) g

def oneOf (first : Reader α) (others : List (Reader α)) : Reader α := others.foldl .either first

def text : Reader String :=
  oneOf (.map (fun t => unquote t.text) (.token .string))
    [.map Token.text (.token .ident), .map Token.text (.token .number)]

def fieldNamed (name : Reader (Token Kind)) (condition : String → Condition) : Reader Condition :=
  .map condition (.preceded (.seq name (.token .colon)) text)

def fieldCondition : Reader Condition :=
  oneOf (fieldNamed (word "tag") .hasTag)
    [fieldNamed (.either (word "word") (word "content")) .contentContains,
      fieldNamed (.either (word "desc") (word "description")) .descriptionContains,
      fieldNamed (word "text") .textContains]

def decimal? (bound : Nat) (digits : String) : Option Nat :=
  let n := Text.decimal digits.toList
  if n < bound then some n else none

def boundLimit : Nat := 0x8000000000000000

def bound : Reader Int :=
  .filterMap "number" (fun t => (decimal? boundLimit t.text).map Int.ofNat) (.token .number)

def count : Reader Nat :=
  .filterMap "number" (fun t => decimal? UInt64.size t.text) (.token .number)

def comparison : Reader Condition :=
  .map (fun ((field, op), n) => .compare field op n)
    (.seq
      (.seq (.either (means .reviews (word "reviews")) (means .days (word "days")))
        (.filterMap "comparison operator" (fun t => Comparison.ofSymbol? t.text) (.token .compare)))
      bound)

def simple : Reader Condition :=
  oneOf (means .all (.either (.token .star) (word "all")))
    [means .reviewed (word "reviewed"),
      .map (fun t => .hasTag (tagName t)) (.token .tag),
      fieldCondition,
      comparison]

def group : Reader Condition :=
  .map (fun ((_, c), _) => c)
    (.seq (.seq (.token .openParen) (.named .condition)) (.token .closeParen))

def unary : Reader Condition :=
  .either (.map .not (.preceded (.either (word "not") (.token .bang)) (.named .unary)))
    (.either group simple)

def chain (join : Condition → Condition → Condition) (operator : Reader (Token Kind))
    (operand : Reader Condition) : Reader Condition :=
  .map (fun (first, rest) => rest.foldl join first)
    (.seq operand (.many (.preceded operator operand) 0 none))

def conjunction : Reader Condition :=
  chain .and (.either (word "and") (.token .amp)) (.named .unary)

def condition : Reader Condition := chain .or (word "or") conjunction

def emptyParens : Reader Unit := means () (.seq (.token .openParen) (.token .closeParen))

def counted (name : String) (step : Nat → Step) : Reader Step :=
  .map (fun ((_, n), _) => step n)
    (.seq (.seq (.seq (word name) (.token .openParen)) count) (.token .closeParen))

def sortKey : Reader SortKey :=
  oneOf (means .reviews (word "reviews"))
    [means .lastReviewed (word "last"), means .word (word "word"),
      means .description (word "description")]

def direction : Reader Direction :=
  .either (means .ascending (word "asc")) (means .descending (word "desc"))

def sort : Reader Step :=
  .map (fun (((_, key), direction), _) => .sort key (direction.getD .ascending))
    (.seq
      (.seq (.seq (.seq (word "sort") (.token .openParen)) sortKey)
        (.opt (.preceded (.token .comma) direction)))
      (.token .closeParen))

def step : Reader Step :=
  oneOf (counted "limit" .limit)
    [counted "skip" .skip,
      sort,
      means .shuffle (.seq (word "shuffle") (.opt emptyParens)),
      means .reverse (.seq (word "reverse") (.opt emptyParens))]

structure Draft where
  content : String
  position : Text.Position
  description : String
  tags : List String

def draft : Reader Draft :=
  .map (fun ((content, description), tags) =>
      ⟨unquote content.text, content.position, description.elim "" (unquote ·.text),
        tags.map tagName⟩)
    (.seq (.seq (.token .string) (.opt (.token .string))) (.many (.token .tag) 0 none))

inductive Command where
  | insert (drafts : List Draft)
  | ready (query : Query)

def insert : Reader Command :=
  .map (fun ((_, drafts), _) => .insert drafts)
    (.seq
      (.seq (.either (word "insert") (.token .plus)) (.sepBy1 draft (.token .semicolon)))
      (.opt (.token .semicolon)))

def filter : Reader Command :=
  .map (fun (condition, steps) => .ready (.filter (condition.getD .all) steps))
    (.seq (.opt condition) (.many (.preceded (.token .pipe) step) 0 none))

def command : Reader Command :=
  oneOf insert
    [means (.ready .session) (word "session"),
      means (.ready .dump) (.either (word "dump") (word "export")),
      filter]

def named : Grammar.Rules Kind (fun _ : Name => Condition) where
  body
    | .condition => condition
    | .unary => unary
  count := 2

def Draft.definition (d : Draft) : Except ParseError Definition :=
  match Markup.parse d.content with
  | .ok content => .ok ⟨content, d.description, .ofList d.tags⟩
  | .error e => .error (.markup d.position e)

def Command.query : Command → Except ParseError Query
  | insert drafts => (drafts.mapM Draft.definition).map .insert
  | ready q => .ok q

end Reader

/-- A failed run as an error. Every cycle of the grammar takes a token, so a run ends. -/
def ParseError.ofFailure : Failure → ParseError
  | .tokenize e => tokenize e
  | .expected e => refused e
  | .endless => refused ⟨Text.Mark.start.position, none, []⟩

/-- Reads a query. Of several errors one in the first token counts before the bounds on the shape,
these before the grammar, and the grammar before the content of definitions. -/
def parse (text : String) : Except ParseError Query :=
  let s := stream text
  match s.enter with
  | .error e => .error (.tokenize e)
  | .ok c =>
    match excess? {} s.tokens with
    | some e => .error (.excess e)
    | none =>
      match Grammar.parseAll Reader.named Reader.command c with
      | .error f => .error (.ofFailure f)
      | .ok command => command.query

end Wordhoard.Query

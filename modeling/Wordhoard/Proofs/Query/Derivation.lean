import Mathlib.Data.List.Forall2
import Wordhoard.Proofs.Grammar.Language
import Wordhoard.Query.Parser

/-! The grammar of queries as it is documented, over the leaves of a derivation, and the query that a
derivation denotes. Nothing here says how a derivation is found. -/
namespace Wordhoard.Query

open Grammar (Leaf Row)

def IsWord (word : String) (l : Leaf Kind) : Prop := l.terminal = .word .ident word

def IsKind (kind : Kind) (l : Leaf Kind) : Prop := l.terminal = .kind kind

def textFields : List (String × (String → Condition)) :=
  [("tag", .hasTag), ("word", .contentContains), ("content", .contentContains),
    ("desc", .descriptionContains), ("description", .descriptionContains), ("text", .textContains)]

def numberFields : List (String × Field) := [("reviews", .reviews), ("days", .days)]

/-- `value ::= STRING | IDENT | NUMBER` -/
inductive Value : Leaf Kind → String → Prop where
  | string {l : Leaf Kind} (literal : IsKind .string l) : Value l (unquote l.token.text)
  | ident {l : Leaf Kind} (bare : IsKind .ident l) : Value l l.token.text
  | number {l : Leaf Kind} (digits : IsKind .number l) : Value l l.token.text

structure Number (bound : Nat) (l : Leaf Kind) (n : Nat) : Prop where
  digits : IsKind .number l
  value : Text.decimal l.token.text.toList = n
  fits : n < bound

inductive Predicate : List (Leaf Kind) → Condition → Prop where
  | all {l : Leaf Kind} (every : IsKind .star l ∨ IsWord "all" l) : Predicate [l] .all
  | reviewed {l : Leaf Kind} (word : IsWord "reviewed" l) : Predicate [l] .reviewed
  | tag {l : Leaf Kind} (tag : IsKind .tag l) : Predicate [l] (.hasTag (tagName l.token))
  | field {name colon value : Leaf Kind} {word text : String} {make : String → Condition}
      (listed : (word, make) ∈ textFields) (named : IsWord word name)
      (separated : IsKind .colon colon) (sought : Value value text) :
      Predicate [name, colon, value] (make text)
  | compare {name symbol number : Leaf Kind} {word : String} {field : Field} {op : Comparison}
      {n : Nat} (listed : (word, field) ∈ numberFields) (named : IsWord word name)
      (compared : IsKind .compare symbol)
      (known : Comparison.ofSymbol? symbol.token.text = some op)
      (bound : Number Reader.boundLimit number n) :
      Predicate [name, symbol, number] (.compare field op n)

/-- The four levels of conditions, the one that binds least first. -/
inductive Level where
  | expr
  | conjunction
  | unary
  | primary

structure Link where
  operator : Leaf Kind
  operand : List (Leaf Kind)
  value : Condition

def Link.leaves (k : Link) : List (Leaf Kind) := k.operator :: k.operand

def chained (join : Condition → Condition → Condition) (first : Condition) (links : List Link) :
    Condition :=
  (links.map Link.value).foldl join first

inductive Derives : Level → List (Leaf Kind) → Condition → Prop where
  /-- `expr ::= and_expr ("or" and_expr)*` -/
  | expr {ls : List (Leaf Kind)} {c : Condition} {links : List Link}
      (first : Derives .conjunction ls c) (operators : ∀ k ∈ links, IsWord "or" k.operator)
      (operands : ∀ k ∈ links, Derives .conjunction k.operand k.value) :
      Derives .expr (ls ++ links.flatMap Link.leaves) (chained .or c links)
  /-- `and_expr ::= unary (("and" | "&") unary)*` -/
  | conjunction {ls : List (Leaf Kind)} {c : Condition} {links : List Link}
      (first : Derives .unary ls c)
      (operators : ∀ k ∈ links, IsWord "and" k.operator ∨ IsKind .amp k.operator)
      (operands : ∀ k ∈ links, Derives .unary k.operand k.value) :
      Derives .conjunction (ls ++ links.flatMap Link.leaves) (chained .and c links)
  /-- `unary ::= ("not" | "!") unary | primary` -/
  | not {l : Leaf Kind} {ls : List (Leaf Kind)} {c : Condition}
      (negation : IsWord "not" l ∨ IsKind .bang l) (inner : Derives .unary ls c) :
      Derives .unary (l :: ls) (.not c)
  | primary {ls : List (Leaf Kind)} {c : Condition} (inner : Derives .primary ls c) :
      Derives .unary ls c
  /-- `primary ::= "(" expr ")" | predicate` -/
  | group {l r : Leaf Kind} {ls : List (Leaf Kind)} {c : Condition} (opened : IsKind .openParen l)
      (inner : Derives .expr ls c) (closed : IsKind .closeParen r) :
      Derives .primary (l :: ls ++ [r]) c
  | predicate {ls : List (Leaf Kind)} {c : Condition} (simple : Predicate ls c) :
      Derives .primary ls c

theorem Derives.lone_operand {ls : List (Leaf Kind)} {c : Condition} (h : Derives .unary ls c) :
    Derives .conjunction ls c := by
  simpa [chained] using Derives.conjunction h (List.forall_mem_nil _) (List.forall_mem_nil _)

theorem Derives.lone_conjunction {ls : List (Leaf Kind)} {c : Condition}
    (h : Derives .conjunction ls c) : Derives .expr ls c := by
  simpa [chained] using Derives.expr h (List.forall_mem_nil _) (List.forall_mem_nil _)

def countedSteps : List (String × (Nat → Step)) := [("limit", .limit), ("skip", .skip)]

def sortKeys : List (String × SortKey) :=
  [("reviews", .reviews), ("last", .lastReviewed), ("word", .word),
    ("description", .description)]

def directions : List (String × Direction) := [("asc", .ascending), ("desc", .descending)]

def bareSteps : List (String × Step) := [("shuffle", .shuffle), ("reverse", .reverse)]

/-- `("," ("asc" | "desc"))?` -/
inductive Order : List (Leaf Kind) → Direction → Prop where
  | none : Order [] .ascending
  | some {comma name : Leaf Kind} {word : String} {d : Direction} (separated : IsKind .comma comma)
      (listed : (word, d) ∈ directions) (named : IsWord word name) : Order [comma, name] d

/-- `("(" ")")?` -/
inductive EmptyParens : List (Leaf Kind) → Prop where
  | none : EmptyParens []
  | some {l r : Leaf Kind} (opened : IsKind .openParen l) (closed : IsKind .closeParen r) :
      EmptyParens [l, r]

inductive StepOf : List (Leaf Kind) → Step → Prop where
  | counted {name l number r : Leaf Kind} {word : String} {make : Nat → Step} {n : Nat}
      (listed : (word, make) ∈ countedSteps) (named : IsWord word name)
      (opened : IsKind .openParen l) (count : Number UInt64.size number n)
      (closed : IsKind .closeParen r) : StepOf [name, l, number, r] (make n)
  | sort {name l key r : Leaf Kind} {order : List (Leaf Kind)} {word : String} {k : SortKey}
      {d : Direction} (named : IsWord "sort" name) (opened : IsKind .openParen l)
      (listed : (word, k) ∈ sortKeys) (keyed : IsWord word key) (directed : Order order d)
      (closed : IsKind .closeParen r) : StepOf (name :: l :: key :: order ++ [r]) (.sort k d)
  | bare {name : Leaf Kind} {parens : List (Leaf Kind)} {word : String} {s : Step}
      (listed : (word, s) ∈ bareSteps) (named : IsWord word name) (empty : EmptyParens parens) :
      StepOf (name :: parens) s

def PipedStep (ls : List (Leaf Kind)) (s : Step) : Prop :=
  ∃ bar ms, ls = bar :: ms ∧ IsKind .pipe bar ∧ StepOf ms s

/-- `definition ::= STRING STRING? TAG*` -/
structure Entry where
  content : Leaf Kind
  description : Option (Leaf Kind)
  tags : List (Leaf Kind)

def Entry.leaves (e : Entry) : List (Leaf Kind) := e.content :: e.description.toList ++ e.tags

structure Entry.Proper (e : Entry) : Prop where
  content : IsKind .string e.content
  description : ∀ l ∈ e.description, IsKind .string l
  tags : ∀ l ∈ e.tags, IsKind .tag l

def FurtherEntry (ls : List (Leaf Kind)) (e : Entry) : Prop :=
  ∃ separator, ls = separator :: e.leaves ∧ IsKind .semicolon separator ∧ e.Proper

/-- A query as it is written: the content of entries is not read yet. -/
inductive Written where
  | insert (entries : List Entry)
  | ready (query : Query)

/-- A missing condition selects every word. -/
inductive Selection : List (Leaf Kind) → Condition → Prop where
  | none : Selection [] .all
  | some {ls : List (Leaf Kind)} {c : Condition} (condition : Derives .expr ls c) : Selection ls c

inductive Sentence : List (Leaf Kind) → Written → Prop where
  /-- `insert ::= ("insert" | "+") definition (";" definition)* ";"?` -/
  | insert {start : Leaf Kind} {first : Entry} {others : List (Leaf Kind)} {entries : List Entry}
      {finish : Option (Leaf Kind)} (begun : IsWord "insert" start ∨ IsKind .plus start)
      (proper : first.Proper) (further : Row FurtherEntry others entries)
      (finished : ∀ l ∈ finish, IsKind .semicolon l) :
      Sentence (start :: (first.leaves ++ others ++ finish.toList)) (.insert (first :: entries))
  | session {l : Leaf Kind} (word : IsWord "session" l) : Sentence [l] (.ready .session)
  | dump {l : Leaf Kind} (word : IsWord "dump" l ∨ IsWord "export" l) : Sentence [l] (.ready .dump)
  /-- `filter ::= expr? ("|" stmt)*` -/
  | filter {ls ms : List (Leaf Kind)} {c : Condition} {steps : List Step}
      (selected : Selection ls c) (piped : Row PipedStep ms steps) :
      Sentence (ls ++ ms) (.ready (.filter c steps))

def Entry.Denotes (e : Entry) (d : Definition) : Prop :=
  Markup.parse (unquote e.content.token.text) = .ok d.content ∧
    d.description = e.description.elim "" (unquote ·.token.text) ∧
    d.tags = .ofList (e.tags.map (tagName ·.token))

def Written.Denotes : Written → Query → Prop
  | insert entries, .insert definitions => List.Forall₂ Entry.Denotes entries definitions
  | insert _, _ => False
  | ready q, q' => q = q'

/-- The tokens of a whole text as the leaves of a sentence. -/
structure Derivation (text : String) (ls : List (Leaf Kind)) (w : Written) : Prop where
  tokenized : ∃ p, (stream text).ending = .finished p
  tokens : ls.map Leaf.token = (stream text).tokens
  sentence : Sentence ls w

end Wordhoard.Query

import Wordhoard.Pattern.Anchored
import Wordhoard.Pattern.Reader
import Wordhoard.Token.Basic

/-! Token rules. A table of rules cuts a text: the first rule in the table that matches at least one
character at the start of the rest makes the next token, and tokens that are not kept only move the
place of the next one. -/
namespace Wordhoard

structure Rule (κ : Type) where
  keep : Bool
  pattern : Pattern
  kind : κ

inductive RuleError where
  | unanchored (pattern : String)
  | invalidPattern (pattern : String)
  | emptyMatch (pattern : String)
  deriving DecidableEq, Repr

namespace Rule

variable {κ : Type}

def read [Pattern.Properties] (keep : Bool) (pattern : String) (kind : κ) : Except RuleError (Rule κ) :=
  if !Pattern.isAnchored pattern.toList then .error (.unanchored pattern)
  else match Pattern.read? pattern.toList with
    | none => .error (.invalidPattern pattern)
    | some p => if p.matchesEmpty then .error (.emptyMatch pattern) else .ok ⟨keep, p, kind⟩

def readAll [Pattern.Properties] (rules : List (Bool × String × κ)) : Except RuleError (List (Rule κ)) :=
  rules.mapM fun (keep, pattern, kind) => read keep pattern kind

def cut? (r : Rule κ) (s : List Char) : Option (List Char × List Char) :=
  match r.pattern.cut? s with
  | some ([], _) => none
  | found => found

def first? (rules : List (Rule κ)) (s : List Char) : Option (Rule κ × List Char × List Char) :=
  rules.findSome? fun r => (r.cut? s).map fun (piece, rest) => (r, piece, rest)

def token (r : Rule κ) (m : Text.Mark) (piece : List Char) : Token κ :=
  ⟨r.kind, String.ofList piece, .between m (m.advance piece), r.keep⟩

/-- Cuts a text from a mark on. Every piece takes a character, so as many rounds as characters
suffice. -/
def scan (rules : List (Rule κ)) : Nat → Text.Mark → List Char → Stream κ
  | _, m, [] => ⟨[], .finished m.position⟩
  | 0, m, s => ⟨[], .stuck ⟨m.position, String.ofList s⟩⟩
  | n + 1, m, s =>
    match first? rules s with
    | none => ⟨[], .stuck ⟨m.position, String.ofList s⟩⟩
    | some (r, piece, rest) =>
      let stream := scan rules n (m.advance piece) rest
      if r.keep then { stream with tokens := r.token m piece :: stream.tokens } else stream

def stream (rules : List (Rule κ)) (text : String) : Stream κ :=
  scan rules text.length .start text.toList

end Rule

/-- Why the pattern is refused. The wording for a pattern that cannot be read names only it. -/
def RuleError.message : RuleError → String
  | .unanchored p => "tokenizer patterns should start every alternative with \"^\" and not use " ++
      "multi-line mode: " ++ p
  | .invalidPattern p => "invalid tokenizer pattern '" ++ p ++ "'"
  | .emptyMatch p => "tokenizer patterns must not match empty input: " ++ p

end Wordhoard

import Wordhoard.Pattern.CharSet

/-! Patterns and their matches. A match is the first in the order of preference: the left
alternative before the right one, one more repetition before none (the other way round for a lazy
one). A repetition without an upper bound ends after a round that consumed nothing. -/
namespace Wordhoard

inductive Pattern.Boundary where
  | edge
  | inside
  | wordStart
  | wordEnd
  | noWordBefore
  | noWordAfter
  deriving DecidableEq, Repr

inductive Pattern where
  | empty
  | one (set : Pattern.CharSet)
  | textStart
  | textEnd
  /-- Lines end at `\n`, and with `crlf` at `\r` too, but not between the two. -/
  | lineStart (crlf : Bool)
  | lineEnd (crlf : Bool)
  | boundary (kind : Pattern.Boundary) (word : Pattern.CharSet)
  | seq (first second : Pattern)
  | either (first second : Pattern)
  | loop (body : Pattern) (greedy : Bool) (least : Nat) (most : Option Nat)

namespace Pattern

/-- A spot in a text: the character before it, if any, and all characters after it. -/
structure Spot where
  before : Option Char
  after : List Char

/-- Tries what a pattern matches at a spot, in order of preference, until the rest agrees. -/
abbrev Matcher := Spot → (Spot → Option Spot) → Option Spot

def Spot.startsLine (crlf : Bool) (s : Spot) : Bool :=
  match s.before with
  | none => true
  | some '\n' => true
  | some '\r' => crlf && s.after.head? != some '\n'
  | _ => false

def Spot.endsLine (crlf : Bool) (s : Spot) : Bool :=
  match s.after.head? with
  | none => true
  | some '\n' => !crlf || s.before != some '\r'
  | some '\r' => crlf
  | _ => false

def Boundary.holds (kind : Boundary) (word : CharSet) (s : Spot) : Bool :=
  let left := s.before.any word.contains
  let right := s.after.head?.any word.contains
  match kind with
  | edge => left != right
  | inside => left == right
  | wordStart => !left && right
  | wordEnd => left && !right
  | noWordBefore => !left
  | noWordAfter => !right

def guarded (holds : Bool) (s : Spot) (k : Spot → Option Spot) : Option Spot :=
  if holds then k s else none

def times (m : Matcher) : Nat → Matcher
  | 0, s, k => k s
  | n + 1, s, k => m s fun s' => times m n s' k

def upTo (m : Matcher) (greedy : Bool) : Nat → Matcher
  | 0, s, k => k s
  | n + 1, s, k =>
    if greedy then
      match m s fun s' => upTo m greedy n s' k with
      | some e => some e
      | none => k s
    else
      match k s with
      | some e => some e
      | none => m s fun s' => upTo m greedy n s' k

/-- Any number of rounds. A round that consumes nothing is the last, so as many rounds as
characters suffice. -/
def star (m : Matcher) (greedy : Bool) : Nat → Matcher
  | 0, s, k => k s
  | n + 1, s, k =>
    let again := fun (s' : Spot) =>
      if s'.after.length < s.after.length then star m greedy n s' k else k s'
    if greedy then
      match m s again with
      | some e => some e
      | none => k s
    else
      match k s with
      | some e => some e
      | none => m s again

def run : Pattern → Matcher
  | empty, s, k => k s
  | one set, s, k =>
    match s.after with
    | [] => none
    | c :: rest => if set.contains c then k ⟨some c, rest⟩ else none
  | textStart, s, k => guarded s.before.isNone s k
  | textEnd, s, k => guarded s.after.isEmpty s k
  | lineStart crlf, s, k => guarded (s.startsLine crlf) s k
  | lineEnd crlf, s, k => guarded (s.endsLine crlf) s k
  | boundary kind word, s, k => guarded (kind.holds word s) s k
  | seq p q, s, k => p.run s fun s' => q.run s' k
  | either p q, s, k =>
    match p.run s k with
    | some e => some e
    | none => q.run s k
  | loop p greedy least most, s, k =>
    times p.run least s fun s' =>
      match most with
      | some n => upTo p.run greedy (n - least) s' k
      | none => star p.run greedy s'.after.length s' k

def matchStart (p : Pattern) (s : List Char) : Option Spot := p.run ⟨none, s⟩ some

def cut? (p : Pattern) (s : List Char) : Option (List Char × List Char) :=
  (p.matchStart s).map fun e => (s.take (s.length - e.after.length), e.after)

/-- The match at the start of a text is the leftmost match, so the empty text is matched only
there. -/
def matchesEmpty (p : Pattern) : Bool := (p.matchStart []).isSome

def many1 (set : CharSet) : Pattern := loop (one set) true 1 none

def many (set : CharSet) : Pattern := loop (one set) true 0 none

def literal : List Char → Pattern
  | [] => empty
  | c :: cs => seq (one (.single c)) (literal cs)

end Pattern

end Wordhoard

import Wordhoard.Grammar.Expectation

/-! Grammars as data, and what they do on a stream of tokens. The first alternative that accepts
wins, repetition takes all it can, and a text that cannot be cut into tokens stops everything. -/
namespace Wordhoard

class TokenKind (κ : Type) where
  describe : κ → String

/-- A grammar for values of type `α`. The grammar of name `n` gives a value of type `τ n`. -/
inductive Grammar (κ : Type) {ν : Type} (τ : ν → Type) : Type → Type 1 where
  | token (kind : κ) : Grammar κ τ (Token κ)
  /-- A token of a kind with a given text, whatever its case in ASCII. -/
  | keyword (kind : κ) (text : String) : Grammar κ τ (Token κ)
  | finish : Grammar κ τ Unit
  | seq {α β : Type} (first : Grammar κ τ α) (second : Grammar κ τ β) : Grammar κ τ (α × β)
  | either {α : Type} (first second : Grammar κ τ α) : Grammar κ τ α
  | many {α : Type} (item : Grammar κ τ α) (least : Nat) (most : Option Nat) :
      Grammar κ τ (List α)
  | sepBy1 {α β : Type} (item : Grammar κ τ α) (separator : Grammar κ τ β) : Grammar κ τ (List α)
  | map {α β : Type} (f : α → β) (g : Grammar κ τ α) : Grammar κ τ β
  /-- Refuses, at its start and under the description, what `f` does not take. -/
  | filterMap {α β : Type} (description : String) (f : α → Option β) (g : Grammar κ τ α) :
      Grammar κ τ β
  | named (name : ν) : Grammar κ τ (τ name)

def sameIgnoringCase (a b : String) : Bool :=
  a.toList.map Char.toLower == b.toList.map Char.toLower

namespace Grammar

open Expectation (later)

variable {κ ν : Type} {τ : ν → Type} {α β γ : Type}

def opt (g : Grammar κ τ α) : Grammar κ τ (Option α) := map List.head? (many g 0 (some 1))

def preceded (first : Grammar κ τ α) (g : Grammar κ τ β) : Grammar κ τ β :=
  map Prod.snd (seq first g)

def takeToken (fits : Token κ → Bool) (description : String) (c : Cursor κ) :
    Outcome κ (Token κ) :=
  match c with
  | .token t next =>
    if fits t then
      match next.enter with
      | .ok rest => .ok ⟨t, rest, none⟩
      | .error e => .error (.tokenize e)
    else .error (.expected (.here c description))
  | .finished _ => .error (.expected (.here c description))

def takeFinish (c : Cursor κ) : Outcome κ Unit :=
  match c with
  | .finished _ => .ok ⟨(), c, none⟩
  | .token _ _ => .error (.expected (.here c "end of input"))

def runSeq (p : Cursor κ → Outcome κ α) (q : Cursor κ → Outcome κ β) (c : Cursor κ) :
    Outcome κ (α × β) :=
  match p c with
  | .error f => .error f
  | .ok a =>
    match q a.rest with
    | .error f => .error (f.mergeWith a.furthest)
    | .ok b => .ok ⟨(a.value, b.value), b.rest, later a.furthest b.furthest⟩

def runEither (p q : Cursor κ → Outcome κ α) (c : Cursor κ) : Outcome κ α :=
  match p c with
  | .ok a => .ok a
  | .error (.expected e) =>
    match q c with
    | .ok b => .ok { b with furthest := later (some e) b.furthest }
    | .error (.expected e') => .error (.expected (e.merge e'))
    | .error f => .error f
  | .error f => .error f

def closeMany (least : Nat) (values : List α) (rest : Cursor κ) (furthest : Option Expectation) :
    Outcome κ (List α) :=
  if values.length < least then
    .error (.expected ((Expectation.here rest s!"at least {least} repetitions").mergeWith furthest))
  else .ok ⟨values, rest, furthest⟩

/-- Repeats from the values already taken. A round that takes no token is the last one, so as many
further rounds as tokens suffice. -/
def runMany (item : Cursor κ → Outcome κ α) (least : Nat) (most : Option Nat) (rounds : Nat)
    (values : List α) (rest : Cursor κ) (furthest : Option Expectation) : Outcome κ (List α) :=
  if most.all (values.length < ·) then
    match item rest with
    | .ok p =>
      let values := values ++ [p.value]
      let furthest := later furthest p.furthest
      if p.rest.remaining < rest.remaining then
        match rounds with
        | n + 1 => runMany item least most n values p.rest furthest
        | 0 => closeMany least values p.rest furthest
      else closeMany least values p.rest furthest
    | .error (.expected e) =>
      if values.length < least then .error (.expected (e.mergeWith furthest))
      else .ok ⟨values, rest, later furthest (some e)⟩
    | .error f => .error f
  else closeMany least values rest furthest

/-- Takes separators and items in turn. A separator without an item behind it is given back; a
round that takes no token would come again for ever. -/
def runSeparated (item : Cursor κ → Outcome κ α) (separator : Cursor κ → Outcome κ β)
    (rounds : Nat) (values : List α) (rest : Cursor κ) (furthest : Option Expectation) :
    Outcome κ (List α) :=
  match separator rest with
  | .error (.expected e) => .ok ⟨values, rest, later furthest (some e)⟩
  | .error f => .error f
  | .ok s =>
    match item s.rest with
    | .error (.expected e) =>
      .ok ⟨values, rest, later (later furthest s.furthest) (some e)⟩
    | .error f => .error f
    | .ok p =>
      if p.rest.remaining < rest.remaining then
        match rounds with
        | n + 1 => runSeparated item separator n (values ++ [p.value]) p.rest
            (later (later furthest s.furthest) p.furthest)
        | 0 => .error .endless
      else .error .endless

def runFilterMap (description : String) (f : α → Option β) (p : Cursor κ → Outcome κ α)
    (c : Cursor κ) : Outcome κ β :=
  match p c with
  | .error e => .error e
  | .ok a =>
    match f a.value with
    | some b => .ok ⟨b, a.rest, a.furthest⟩
    | none => .error (.expected ((Expectation.here c description).mergeWith a.furthest))

variable [DecidableEq κ] [TokenKind κ]

def interpret (call : (n : ν) → Cursor κ → Outcome κ (τ n)) :
    {α : Type} → Grammar κ τ α → Cursor κ → Outcome κ α
  | _, token kind, c => takeToken (·.kind = kind) (TokenKind.describe kind) c
  | _, keyword kind text, c =>
    takeToken (fun t => t.kind = kind && sameIgnoringCase t.text text) ("'" ++ text ++ "'") c
  | _, finish, c => takeFinish c
  | _, seq p q, c => runSeq (interpret call p) (interpret call q) c
  | _, either p q, c => runEither (interpret call p) (interpret call q) c
  | _, many p least most, c => runMany (interpret call p) least most c.remaining [] c none
  | _, sepBy1 p s, c =>
    match interpret call p c with
    | .error f => .error f
    | .ok a =>
      runSeparated (interpret call p) (interpret call s) a.rest.remaining [a.value] a.rest
        a.furthest
  | _, map f p, c => (interpret call p c).map fun a => ⟨f a.value, a.rest, a.furthest⟩
  | _, filterMap description f p, c => runFilterMap description f (interpret call p) c
  | _, named n, c => call n c

structure Rules (κ : Type) {ν : Type} (τ : ν → Type) where
  body : (n : ν) → Grammar κ τ (τ n)
  count : Nat

def Rules.call (rules : Rules κ τ) : Nat → (n : ν) → Cursor κ → Outcome κ (τ n)
  | 0, _, _ => .error .endless
  | depth + 1, n, c => interpret (rules.call depth) (rules.body n) c

/-- A chain of calls that takes no token names each grammar at most once, or it never ends. -/
def Rules.depth (rules : Rules κ τ) (c : Cursor κ) : Nat := rules.count * (c.remaining + 1) + 1

def run (rules : Rules κ τ) (g : Grammar κ τ α) (c : Cursor κ) : Outcome κ α :=
  interpret (rules.call (rules.depth c)) g c

def requireEnd (o : Outcome κ α) : Except Failure α :=
  match o with
  | .error f => .error f
  | .ok p =>
    match p.rest with
    | .finished _ => .ok p.value
    | rest => .error (.expected ((Expectation.here rest "end of input").mergeWith p.furthest))

def parseAll (rules : Rules κ τ) (g : Grammar κ τ α) (c : Cursor κ) : Except Failure α :=
  requireEnd (run rules g c)

def noRules : Rules κ (fun _ : Empty => Unit) := ⟨(nomatch ·), 0⟩

end Grammar

end Wordhoard

import Wordhoard.Text.Position

/-! Tokens and streams of tokens. A stream ends where the text ends or where it cannot be cut into
tokens any further; that is found out by the one who gets there. -/
namespace Wordhoard

structure Token (κ : Type) where
  kind : κ
  text : String
  position : Text.Position
  keep : Bool
  deriving DecidableEq, Repr

def Token.endIndex {κ : Type} (t : Token κ) : Nat :=
  t.position.index + Text.byteLength t.text.toList

structure TokenizeError where
  position : Text.Position
  remainder : String
  deriving DecidableEq, Repr

def TokenizeError.message (e : TokenizeError) : String :=
  s!"unable to tokenize the rest of the input at {e.position.text}: {e.remainder}"

inductive Ending where
  | finished (position : Text.Position)
  | stuck (error : TokenizeError)
  deriving DecidableEq, Repr

structure Stream (κ : Type) where
  tokens : List (Token κ)
  ending : Ending
  deriving Repr

/-- A place in a stream that has been reached: at a token, or at the end of the text. -/
inductive Cursor (κ : Type) where
  | token (head : Token κ) (rest : Stream κ)
  | finished (position : Text.Position)
  deriving Repr

namespace Stream

variable {κ : Type}

def enter (s : Stream κ) : Except TokenizeError (Cursor κ) :=
  match s.tokens, s.ending with
  | t :: ts, e => .ok (.token t ⟨ts, e⟩)
  | [], .finished p => .ok (.finished p)
  | [], .stuck e => .error e

def toList? (s : Stream κ) : Except TokenizeError (List (Token κ)) :=
  match s.ending with
  | .finished _ => .ok s.tokens
  | .stuck e => .error e

end Stream

namespace Cursor

variable {κ : Type}

def position : Cursor κ → Text.Position
  | token t _ => t.position
  | finished p => p

def index (c : Cursor κ) : Nat := c.position.index

def found : Cursor κ → Option String
  | token t _ => some t.text
  | finished _ => none

def remaining : Cursor κ → Nat
  | token _ s => s.tokens.length + 1
  | finished _ => 0

end Cursor

end Wordhoard

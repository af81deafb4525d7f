import Wordhoard.Text.Digits

/-! Strings as they are written in TOML. A string is written plainly if it can be, else in the
quotes that leave the least to escape. -/
namespace Wordhoard.Toml

inductive Quotes where
  | basic
  | literal
  | basicBlock
  | literalBlock
  deriving DecidableEq, Repr

def isControl (c : Char) : Bool :=
  (c.toNat < 0x20 && c != '\t' && c != '\n') || c.toNat = 0x7F

def longestRun (q : Char) (now most : Nat) : List Char → Nat
  | [] => max now most
  | c :: rest =>
    if c = q then longestRun q (now + 1) most rest else longestRun q 0 (max now most) rest

def Quotes.of (s : List Char) : Quotes :=
  let control := s.any isControl
  let line := s.contains '\n'
  if !control && !line && !s.contains '\\' && !s.contains '"' then basic
  else if !control && !line && !s.contains '\'' then literal
  else if !control && !s.contains '\\' && longestRun '"' 0 0 s ≤ 2 then basicBlock
  else if !control && longestRun '\'' 0 0 s ≤ 2 then literalBlock
  else if line then basicBlock
  else basic

def upperDigit (n : Nat) : Char := (Text.digitChar n).toUpper

def escapeChar (c : Char) : List Char :=
  if c = '\x08' then ['\\', 'b']
  else if c = '\t' then ['\\', 't']
  else if c = '\x0c' then ['\\', 'f']
  else if c = '\r' then ['\\', 'r']
  else if c = '\\' then ['\\', '\\']
  else if isControl c then
    ['\\', 'u', '0', '0', upperDigit (c.toNat / 16), upperDigit (c.toNat % 16)]
  else [c]

def escapeLine : List Char → List Char
  | [] => []
  | c :: rest =>
    (if c = '"' then ['\\', '"'] else if c = '\n' then ['\\', 'n'] else escapeChar c) ++
      escapeLine rest

/-- A string in a basic block, after so many quotes in a row. Every third one is escaped. -/
def escapeBlock : Nat → List Char → List Char
  | _, [] => []
  | quotes, c :: rest =>
    if c = '"' then
      if quotes = 2 then '\\' :: '"' :: escapeBlock 0 rest else '"' :: escapeBlock (quotes + 1) rest
    else if c = '\n' then '\n' :: escapeBlock 0 rest
    else escapeChar c ++ escapeBlock 0 rest

def blockStart (s : List Char) : List Char := if s.contains '\n' then ['\n'] else []

def quoteChars (s : List Char) : List Char :=
  match Quotes.of s with
  | .basic => '"' :: escapeLine s ++ ['"']
  | .literal => '\'' :: s ++ ['\'']
  | .basicBlock => '"' :: '"' :: '"' :: blockStart s ++ escapeBlock 0 s ++ ['"', '"', '"']
  | .literalBlock => '\'' :: '\'' :: '\'' :: blockStart s ++ s ++ ['\'', '\'', '\'']

def quote (s : String) : String := String.ofList (quoteChars s.toList)

end Wordhoard.Toml

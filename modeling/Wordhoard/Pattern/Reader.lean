import Wordhoard.Pattern.Basic
import Wordhoard.Text.Digits
import Wordhoard.Text.Read

/-! Reading patterns from text. The syntax has literals, escapes, classes with set operations,
groups, flags, repetitions and anchors; look-around and back references are refused. So is all that
could match a part of a character, where the flag `u` is off. -/
namespace Wordhoard.Pattern

/-- The sets that names of properties stand for. -/
class Properties where
  set? : List Char → Option CharSet

/-- A few properties; case, blanks, hyphens and underscores of a name do not count, nor does what is not
ASCII. -/
instance : Properties where
  set? name :=
    let counts (c : Char) : Bool := c.toNat < 128 && c ≠ ' ' && c ≠ '_' && c ≠ '-'
    match String.ofList ((name.filter counts).map Char.toLower) with
    | "l" | "letter" => some .letter
    | "n" | "number" => some .numeral
    | "nd" | "decimalnumber" => some .digit
    | "whitespace" | "space" => some .blank
    | "any" => some .all
    | _ => none

variable [Properties]

structure Flags where
  ignoreCase : Bool := false
  multiLine : Bool := false
  dotAll : Bool := false
  swapGreed : Bool := false
  verbose : Bool := false
  crlf : Bool := false
  unicode : Bool := true

def Flags.fold (f : Flags) (s : CharSet) : CharSet :=
  if !f.ignoreCase then s else if f.unicode then .anyCase s else .anyAsciiCase s

/-- Where `u` is off a complement holds bytes that are no characters. -/
def Flags.negate? (f : Flags) (negated : Bool) (s : CharSet) : Option CharSet :=
  if !negated then some s else if f.unicode then some (.complement s) else none

open Text (Read)

def hexChar? (digits : List Char) : Option Char := (Text.number? 16 digits).bind Text.scalar?

def readHex (width : Nat) : Read Char
  | '\x7b' :: rest =>
    match rest.span (· ≠ '\x7d') with
    | (digits, _ :: rest) => (hexChar? digits).map (·, rest)
    | _ => none
  | cs =>
    if cs.length < width then none else (hexChar? (cs.take width)).map (·, cs.drop width)

/-- No name of a property has a bracket, a parenthesis, a bar or a backslash. -/
def isNameChar (c : Char) : Bool := c ∉ ['\\', '[', '(', ')', '|']

def readProperty : Read (List Char)
  | '\x7b' :: rest =>
    match rest.span (· ≠ '\x7d') with
    | (name, _ :: rest) => if name.all isNameChar then some (name, rest) else none
    | _ => none
  | c :: rest => if isNameChar c then some ([c], rest) else none
  | [] => none

inductive Escape where
  | literal (c : Char)
  /-- A character by two digits, which is a byte where `u` is off. -/
  | byte (c : Char)
  | set (negated : Bool) (unicode ascii : CharSet)
  | property (negated : Bool) (name : List Char)
  | anchor (p : Pattern)
  | boundary (kind : Boundary)

def namedBoundary? (name : List Char) : Option Boundary :=
  match String.ofList name with
  | "start" => some .wordStart
  | "end" => some .wordEnd
  | "start-half" => some .noWordBefore
  | "end-half" => some .noWordAfter
  | _ => none

def readEscape : Read Escape
  | [] => none
  | c :: rest =>
    match c with
    | 'd' => some (.set false .digit .asciiDigit, rest)
    | 'D' => some (.set true .digit .asciiDigit, rest)
    | 's' => some (.set false .blank .asciiBlank, rest)
    | 'S' => some (.set true .blank .asciiBlank, rest)
    | 'w' => some (.set false .wordChar .asciiWordChar, rest)
    | 'W' => some (.set true .wordChar .asciiWordChar, rest)
    | 'p' => (readProperty rest).map fun (name, r) => (.property false name, r)
    | 'P' => (readProperty rest).map fun (name, r) => (.property true name, r)
    | 'x' => (readHex 2 rest).map fun (c, r) =>
      (if rest.head? = some '\x7b' then .literal c else .byte c, r)
    | 'u' => (readHex 4 rest).map fun (c, r) => (.literal c, r)
    | 'U' => (readHex 8 rest).map fun (c, r) => (.literal c, r)
    | 'a' => some (.literal '\x07', rest)
    | 'f' => some (.literal '\x0c', rest)
    | 't' => some (.literal '\t', rest)
    | 'n' => some (.literal '\n', rest)
    | 'r' => some (.literal '\r', rest)
    | 'v' => some (.literal '\x0b', rest)
    | 'A' => some (.anchor .textStart, rest)
    | 'z' => some (.anchor .textEnd, rest)
    | 'B' => some (.boundary .inside, rest)
    | '<' => some (.boundary .wordStart, rest)
    | '>' => some (.boundary .wordEnd, rest)
    | 'b' =>
      match rest with
      | '\x7b' :: named =>
        match named.span (· ≠ '\x7d') with
        | (name, _ :: rest) => (namedBoundary? name).map fun b => (.boundary b, rest)
        | _ => none
      | _ => some (.boundary .edge, rest)
    | _ => if c.toNat < 128 && !c.isAlphanum then some (.literal c, rest) else none

def Escape.char? (f : Flags) : Escape → Option Char
  | literal c => some c
  | byte c => if f.unicode || c.toNat < 128 then some c else none
  | _ => none

/-- The set that an escape stands for. A property is folded before it is negated. -/
def Escape.set? (f : Flags) : Escape → Option CharSet
  | set negated unicode ascii => f.negate? negated (if f.unicode then unicode else ascii)
  | property negated name =>
    if f.unicode then (Properties.set? name).bind fun s => f.negate? negated (f.fold s) else none
  | _ => none

def atom? (f : Flags) : Escape → Option Pattern
  | .anchor p => some p
  | .boundary kind => some (.boundary kind (if f.unicode then .wordChar else .asciiWordChar))
  | e => ((e.char? f).map fun c => .one (f.fold (.single c))) <|> (e.set? f).map .one

def skipVerbose (verbose : Bool) : Nat → List Char → List Char
  | 0, cs => cs
  | _ + 1, [] => []
  | n + 1, c :: rest =>
    if !verbose then c :: rest
    else if Text.isBlank c then skipVerbose verbose n rest
    else if c = '#' then skipVerbose verbose n (rest.dropWhile (· ≠ '\n'))
    else c :: rest

def Flags.skip (f : Flags) (cs : List Char) : List Char := skipVerbose f.verbose cs.length cs

def asciiClass? (name : List Char) : Option CharSet :=
  let lower := CharSet.range 'a' 'z'
  let upper := CharSet.range 'A' 'Z'
  match String.ofList name with
  | "alnum" => some (.union .asciiDigit (.union upper lower))
  | "alpha" => some (.union upper lower)
  | "ascii" => some (.ranges [(0, 0x7F)])
  | "blank" => some (.ofList ['\t', ' '])
  | "cntrl" => some (.ranges [(0, 0x1F), (0x7F, 0x7F)])
  | "digit" => some .asciiDigit
  | "graph" => some (.ranges [(0x21, 0x7E)])
  | "lower" => some lower
  | "print" => some (.ranges [(0x20, 0x7E)])
  | "punct" => some (.ranges [(0x21, 0x2F), (0x3A, 0x40), (0x5B, 0x60), (0x7B, 0x7E)])
  | "space" => some .asciiBlank
  | "upper" => some upper
  | "word" => some .asciiWordChar
  | "xdigit" => some (.union .asciiDigit (.union (.range 'a' 'f') (.range 'A' 'F')))
  | _ => none

def readAsciiClass : Read (Bool × CharSet)
  | ':' :: rest =>
    let (negated, rest) :=
      match rest with
      | '^' :: r => (true, r)
      | r => (false, r)
    match rest.span (· ≠ ':') with
    | (name, ':' :: ']' :: rest) => (asciiClass? name).map fun s => ((negated, s), rest)
    | _ => none
  | _ => none

def readMember : Read Escape
  | '\\' :: rest => readEscape rest
  | c :: rest => some (.literal c, rest)
  | [] => none

def readItem (f : Flags) (cs : List Char) : Option ((Escape × Option Escape) × List Char) := do
  let (first, rest) ← readMember cs
  match f.skip rest with
  | '-' :: more =>
    match f.skip more with
    | [] => none
    | ']' :: _ => some ((first, none), '-' :: more)
    | '-' :: _ => some ((first, none), '-' :: more)
    | more =>
      let (last, rest) ← readMember more
      some ((first, some last), rest)
  | rest => some ((first, none), rest)

/-- The character that a member of a class stands for. Where `u` is off it is ASCII. -/
def Escape.member? (f : Flags) (e : Escape) : Option Char :=
  (e.char? f).filter fun c => f.unicode || c.toNat < 128

def itemSet? (f : Flags) : Escape × Option Escape → Option CharSet
  | (e, none) => (e.member? f).map .single <|> e.set? f
  | (first, some last) => do
    let a ← first.member? f
    let b ← last.member? f
    if a ≤ b then some (.range a b) else none

inductive SetOp where
  | inter
  | diff
  | symmDiff

def SetOp.apply : SetOp → CharSet → CharSet → CharSet
  | inter, a, b => .inter a b
  | diff, a, b => .diff a b
  | symmDiff, a, b => .symmDiff a b

def joinOperand (f : Flags) (left : Option (CharSet × SetOp)) (last : CharSet) : CharSet :=
  match left with
  | none => last
  | some (a, op) => op.apply (f.fold a) (f.fold last)

/-- The beginning of a class: a caret, then hyphens or a closing bracket that stand for
themselves. -/
def classHead (f : Flags) (cs : List Char) : Bool × CharSet × List Char :=
  let (negated, cs) :=
    match f.skip cs with
    | '^' :: r => (true, f.skip r)
    | r => (false, r)
  match cs with
  | '-' :: _ => (negated, .single '-', cs.dropWhile (· = '-'))
  | ']' :: r => (negated, .single ']', r)
  | _ => (negated, .none, cs)

mutual

def readClass : Nat → Flags → Read CharSet
  | 0, _, _ => none
  | n + 1, f, cs => do
    let (negated, start, rest) := classHead f cs
    let (s, rest) ← readMembers n f none start rest
    return (← f.negate? negated (f.fold s), rest)

def readMembers : Nat → Flags → Option (CharSet × SetOp) → CharSet → Read CharSet
  | 0, _, _, _, _ => none
  | n + 1, f, left, sofar, cs =>
    let operator (op : SetOp) (rest : List Char) :=
      readMembers n f (some (joinOperand f left sofar, op)) .none rest
    match f.skip cs with
    | [] => none
    | ']' :: rest => some (joinOperand f left sofar, rest)
    | '&' :: '&' :: rest => operator .inter rest
    | '-' :: '-' :: rest => operator .diff rest
    | '~' :: '~' :: rest => operator .symmDiff rest
    | '[' :: rest =>
      match readAsciiClass rest with
      | some ((negated, s), rest) => do
        readMembers n f left (.union sofar (← f.negate? negated (f.fold s))) rest
      | none => do
        let (s, rest) ← readClass n f rest
        readMembers n f left (.union sofar s) rest
    | cs => do
      let (item, rest) ← readItem f cs
      readMembers n f left (.union sofar (← itemSet? f item)) rest

end

def readCount (cs : List Char) : Option (Nat × List Char) :=
  let (digits, rest) := (cs.dropWhile Text.isBlank).span Char.isDigit
  let n := Text.decimal digits
  if digits.isEmpty || n ≥ UInt32.size then none else some (n, rest.dropWhile Text.isBlank)

def readBounds (cs : List Char) : Option ((Nat × Option Nat) × List Char) := do
  match ← readCount cs with
  | (n, '\x7d' :: rest) => some ((n, some n), rest)
  | (n, ',' :: rest) =>
    match rest.dropWhile Text.isBlank with
    | '\x7d' :: rest => some ((n, none), rest)
    | rest =>
      match ← readCount rest with
      | (m, '\x7d' :: rest) => if n ≤ m then some ((n, some m), rest) else none
      | _ => none
  | _ => none

def readRepetition : Read (Nat × Option Nat)
  | '*' :: rest => some ((0, none), rest)
  | '+' :: rest => some ((1, none), rest)
  | '?' :: rest => some ((0, some 1), rest)
  | '\x7b' :: rest => readBounds rest
  | _ => none

def readGreed (f : Flags) : List Char → Bool × List Char
  | '?' :: rest => (f.swapGreed, rest)
  | rest => (!f.swapGreed, rest)

def Flags.set? (f : Flags) (flag : Char) (on : Bool) : Option Flags :=
  match flag with
  | 'i' => some { f with ignoreCase := on }
  | 'm' => some { f with multiLine := on }
  | 's' => some { f with dotAll := on }
  | 'U' => some { f with swapGreed := on }
  | 'x' => some { f with verbose := on }
  | 'R' => some { f with crlf := on }
  | 'u' => some { f with unicode := on }
  | _ => none

/-- Flags up to a colon or a closing parenthesis, which is left. No flag occurs twice, and one
hyphen with a flag behind it turns flags off. -/
def readFlags (f : Flags) (on : Bool) (seen : List Char) : Read Flags
  | [] => none
  | c :: rest =>
    if c = ':' || c = ')' then
      if seen.head? = some '-' then none else some (f, c :: rest)
    else if c ∈ seen then none
    else if c = '-' then readFlags f false ('-' :: seen) rest
    else match f.set? c on with
      | some f' => readFlags f' on (c :: seen) rest
      | none => none

def readName (cs : List Char) : Option (List Char × List Char) :=
  match cs.span (· ≠ '>') with
  | (c :: name, _ :: rest) =>
    if (c = '_' || Text.isLetter c) &&
        name.all fun d => d ∈ ['_', '.', '[', ']'] || Text.isLetter d || Text.isNumeral d
    then some (c :: name, rest) else none
  | _ => none

inductive Opening where
  | group (flags : Flags) (name : Option (List Char))
  | setFlags (flags : Flags)

def readOpening (f : Flags) (cs : List Char) : Option (Opening × List Char) :=
  let named (rest : List Char) :=
    (readName rest).map fun (name, rest) => (.group f (some name), rest)
  match f.skip cs with
  | '?' :: 'P' :: '<' :: rest => named rest
  | '?' :: '<' :: rest => named rest
  | '?' :: rest =>
    match readFlags f true [] rest with
    | some (f', ':' :: more) => some (.group f' none, more)
    | some (f', ')' :: more) => if rest.head? = some ')' then none else some (.setFlags f', more)
    | _ => none
  | rest => some (.group f none, rest)

def joinItems (items : List (Option Pattern)) : Pattern :=
  items.foldl (fun p item => match item with
    | some q => match p with
      | .empty => q
      | _ => .seq q p
    | none => p) .empty

def joinAlternatives (left : Option Pattern) (last : Pattern) : Pattern :=
  match left with
  | none => last
  | some p => .either p last

/-- Any character but an end of a line. Where `u` is off it would be any byte. -/
def dot? (f : Flags) : Option Pattern :=
  let lineEnds := if f.crlf then .ofList ['\r', '\n'] else .single '\n'
  if f.unicode then some (.one (if f.dotAll then .all else .complement lineEnds)) else none

/-- Reads up to the end of a group or of the text. The items read are held backwards, and `names`
are the group names in use. -/
def readBody : Nat → Flags → Option Pattern → List (Option Pattern) → List (List Char) →
    List Char → Option (Pattern × List (List Char) × List Char)
  | 0, _, _, _, _, _ => none
  | n + 1, f, left, items, names, cs =>
    let push (p : Option Pattern) (rest : List Char) :=
      p.bind fun p => readBody n f left (some p :: items) names rest
    match f.skip cs with
    | [] => some (joinAlternatives left (joinItems items), names, [])
    | ')' :: rest => some (joinAlternatives left (joinItems items), names, ')' :: rest)
    | '|' :: rest =>
      readBody n f (some (joinAlternatives left (joinItems items))) [] names rest
    | '(' :: rest =>
      match readOpening f rest with
      | none => none
      | some (.setFlags f', rest) => readBody n f' left (none :: items) names rest
      | some (.group f' name, rest) =>
        if name.any (· ∈ names) then none
        else match readBody n f' none [] (name.toList ++ names) rest with
          | some (p, names, ')' :: rest) => readBody n f left (some p :: items) names rest
          | _ => none
    | '[' :: rest =>
      match readClass n f rest with
      | some (s, rest) => push (some (.one s)) rest
      | none => none
    | '\\' :: rest =>
      match readEscape rest with
      | some (e, rest) => push (atom? f e) rest
      | none => none
    | '.' :: rest => push (dot? f) rest
    | '^' :: rest => push (some (if f.multiLine then .lineStart f.crlf else .textStart)) rest
    | '$' :: rest => push (some (if f.multiLine then .lineEnd f.crlf else .textEnd)) rest
    | c :: rest =>
      if c ∈ ['*', '+', '?', '\x7b'] then
        match items, readRepetition (c :: rest) with
        | some p :: items, some ((least, most), rest) =>
          let (greedy, rest) := readGreed f rest
          readBody n f left (some (.loop p greedy least most) :: items) names rest
        | _, _ => none
      else push (some (.one (f.fold (.single c)))) rest

def read? (text : List Char) : Option Pattern :=
  match readBody (2 * text.length + 2) {} none [] [] text with
  | some (p, _, []) => some p
  | _ => none

end Wordhoard.Pattern

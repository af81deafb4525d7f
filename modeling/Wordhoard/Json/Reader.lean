import Wordhoard.Json.Basic
import Wordhoard.Text.Digits
import Wordhoard.Text.Read

/-! Reading JSON. Nothing but JSON is taken: no comments, no trailing commas, no half of a surrogate
pair, and fewer than 128 arrays and objects inside each other. -/
namespace Wordhoard.Json

open Text (Read expect)

def skipSpace (s : List Char) : List Char :=
  s.dropWhile fun c => c = ' ' || c = '\n' || c = '\t' || c = '\r'

def readHex4 : Read Nat
  | a :: b :: c :: d :: rest => (Text.number? 16 [a, b, c, d]).map (·, rest)
  | _ => none

def readUnit (s : List Char) : Option (Char × List Char) := do
  let (high, rest) ← readHex4 s
  if 0xD800 ≤ high ∧ high < 0xDC00 then
    let ((), rest) ← expect ['\\', 'u'] rest
    let (low, rest) ← readHex4 rest
    if 0xDC00 ≤ low ∧ low < 0xE000 then
      return (Char.ofNat (0x10000 + (high - 0xD800) * 1024 + (low - 0xDC00)), rest)
    else none
  else if 0xDC00 ≤ high ∧ high < 0xE000 then none
  else return (Char.ofNat high, rest)

def readEscape : Read Char
  | '"' :: rest => some ('"', rest)
  | '\\' :: rest => some ('\\', rest)
  | '/' :: rest => some ('/', rest)
  | 'b' :: rest => some ('\x08', rest)
  | 'f' :: rest => some ('\x0c', rest)
  | 'n' :: rest => some ('\n', rest)
  | 'r' :: rest => some ('\r', rest)
  | 't' :: rest => some ('\t', rest)
  | 'u' :: rest => readUnit rest
  | _ => none

/-- The characters of a string after its opening quote. Every character is written with at least
one, so the length of the text bounds their number. -/
def readChars : Nat → Read (List Char)
  | 0, _ => none
  | _ + 1, [] => none
  | n + 1, c :: rest =>
    if c = '"' then some ([], rest)
    else if c = '\\' then do
      let (d, rest) ← readEscape rest
      let (cs, rest) ← readChars n rest
      return (d :: cs, rest)
    else if c.toNat < 0x20 then none
    else do
      let (cs, rest) ← readChars n rest
      return (c :: cs, rest)

def readString (s : List Char) : Option (String × List Char) := do
  let (cs, rest) ← readChars s.length s
  return (String.ofList cs, rest)

def readWhole (s : List Char) : Option (List Char × List Char) :=
  match s.span Char.isDigit with
  | ([], _) => none
  | ('0' :: _ :: _, _) => none
  | found => some found

def readFraction : Read (List Char)
  | '.' :: rest =>
    match rest.span Char.isDigit with
    | ([], _) => none
    | (digits, rest) => some ('.' :: digits, rest)
  | rest => some ([], rest)

def readExponentDigits (start : List Char) (s : List Char) : Option (List Char × List Char) :=
  match s.span Char.isDigit with
  | ([], _) => none
  | (digits, rest) => some (start ++ digits, rest)

def readExponent : Read (List Char)
  | c :: rest =>
    if c = 'e' || c = 'E' then
      match rest with
      | '+' :: rest => readExponentDigits [c, '+'] rest
      | '-' :: rest => readExponentDigits [c, '-'] rest
      | rest => readExponentDigits [c] rest
    else some ([], c :: rest)
  | [] => some ([], [])

def readUnsigned (negative : Bool) (s : List Char) : Option (Json × List Char) := do
  let (whole, rest) ← readWhole s
  let (fraction, rest) ← readFraction rest
  let (exponent, rest) ← readExponent rest
  let n := Text.decimal whole
  if fraction.isEmpty && exponent.isEmpty && !(negative && n == 0) then
    return (.integer (if negative then -n else n), rest)
  else
    let sign := if negative then ['-'] else []
    return (.decimal (String.ofList (sign ++ whole ++ fraction ++ exponent)), rest)

def readNumber : Read Json
  | '-' :: rest => readUnsigned true rest
  | s => readUnsigned false s

mutual

def readValue : Nat → Nat → Read Json
  | 0, _, _ => none
  | n + 1, depth, s =>
    match skipSpace s with
    | [] => none
    | c :: rest =>
      if c = '"' then (readString rest).map fun (v, r) => (.string v, r)
      else if c = '[' then
        match depth with
        | 0 => none
        | depth + 1 =>
          match skipSpace rest with
          | ']' :: rest => some (.array [], rest)
          | rest => (readItems n depth rest).map fun (items, r) => (.array items, r)
      else if c = '\x7b' then
        match depth with
        | 0 => none
        | depth + 1 =>
          match skipSpace rest with
          | '\x7d' :: rest => some (.object [], rest)
          | rest => (readMembers n depth rest).map fun (members, r) => (.object members, r)
      else if c = 'n' then (expect ['u', 'l', 'l'] rest).map fun ((), r) => (.null, r)
      else if c = 't' then (expect ['r', 'u', 'e'] rest).map fun ((), r) => (.bool true, r)
      else if c = 'f' then (expect ['a', 'l', 's', 'e'] rest).map fun ((), r) => (.bool false, r)
      else readNumber (c :: rest)

def readItems : Nat → Nat → Read (List Json)
  | 0, _, _ => none
  | n + 1, depth, s => do
    let (v, rest) ← readValue n depth s
    match skipSpace rest with
    | ',' :: rest =>
      let (items, rest) ← readItems n depth rest
      return (v :: items, rest)
    | ']' :: rest => return ([v], rest)
    | _ => none

def readMembers : Nat → Nat → Read (List (String × Json))
  | 0, _, _ => none
  | n + 1, depth, s => do
    match skipSpace s with
    | '"' :: rest =>
      let (name, rest) ← readString rest
      match skipSpace rest with
      | ':' :: rest =>
        let (v, rest) ← readValue n depth rest
        match skipSpace rest with
        | ',' :: rest =>
          let (members, rest) ← readMembers n depth rest
          return ((name, v) :: members, rest)
        | '\x7d' :: rest => return ([(name, v)], rest)
        | _ => none
      | _ => none
    | _ => none

end

def maxDepth : Nat := 127

def read? (text : String) : Option Json :=
  let s := text.toList
  match readValue (2 * s.length + 2) maxDepth s with
  | some (v, rest) => if (skipSpace rest).isEmpty then some v else none
  | none => none

end Wordhoard.Json

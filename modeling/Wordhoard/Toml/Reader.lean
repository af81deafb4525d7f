import Wordhoard.Text.Digits
import Wordhoard.Text.Read
import Wordhoard.Time.Calendar
import Wordhoard.Toml.Basic
import Wordhoard.Toml.Quoted

/-! Reading TOML. A document is a sequence of lines, each a pair or a header; arrays, braces and the
dots of a key go fewer than 80 deep. -/
namespace Wordhoard.Toml

open Text (Read expect)

def isBlank (c : Char) : Bool := c = ' ' || c = '\t'

def skipBlanks (s : List Char) : List Char := s.dropWhile isBlank

def isPrintable (c : Char) : Bool := !isControl c && c != '\n'

def afterBreak? : List Char → Option (List Char)
  | '\n' :: rest => some rest
  | '\r' :: '\n' :: rest => some rest
  | _ => none

def afterLine? (s : List Char) : Option (List Char) :=
  match skipBlanks s with
  | [] => some []
  | '#' :: rest =>
    match rest.dropWhile isPrintable with
    | [] => some []
    | rest => afterBreak? rest
  | rest => afterBreak? rest

def skipFiller (comment : Bool) : List Char → List Char
  | [] => []
  | '\n' :: rest => skipFiller false rest
  | '\r' :: '\n' :: rest => skipFiller false rest
  | c :: rest =>
    if comment then if isPrintable c then skipFiller true rest else c :: rest
    else if isBlank c then skipFiller false rest
    else if c = '#' then skipFiller true rest
    else c :: rest

def readScalar (digits : Nat) (s : List Char) : Option (Char × List Char) := do
  if s.length < digits then none
  else
    let c ← Text.scalar? (← Text.number? 16 (s.take digits))
    return (c, s.drop digits)

def readEscape : Read Char
  | 'b' :: rest => some ('\x08', rest)
  | 't' :: rest => some ('\t', rest)
  | 'n' :: rest => some ('\n', rest)
  | 'f' :: rest => some ('\x0c', rest)
  | 'r' :: rest => some ('\r', rest)
  | '"' :: rest => some ('"', rest)
  | '\\' :: rest => some ('\\', rest)
  | 'u' :: rest => readScalar 4 rest
  | 'U' :: rest => readScalar 8 rest
  | _ => none

def readBasic : Nat → Read (List Char)
  | 0, _ => none
  | _ + 1, [] => none
  | n + 1, c :: rest =>
    if c = '"' then some ([], rest)
    else if c = '\\' then do
      let (d, rest) ← readEscape rest
      let (cs, rest) ← readBasic n rest
      return (d :: cs, rest)
    else if isPrintable c then (readBasic n rest).map fun (cs, r) => (c :: cs, r)
    else none

def readLiteral : Read (List Char)
  | [] => none
  | '\'' :: rest => some ([], rest)
  | c :: rest =>
    if isPrintable c then (readLiteral rest).map fun (cs, r) => (c :: cs, r) else none

/-- The end of a block: three quotes, after which up to two more belong to the block. -/
def blockEnd? (q : Char) : List Char → Option (List Char × List Char)
  | a :: b :: c :: rest =>
    if a = q ∧ b = q ∧ c = q then
      let more := (rest.take 2).takeWhile (· = q)
      some (more, rest.drop more.length)
    else none
  | _ => none

def skipBreaks : List Char → List Char
  | [] => []
  | '\n' :: rest => skipBreaks rest
  | '\r' :: '\n' :: rest => skipBreaks rest
  | c :: rest => if isBlank c then skipBreaks rest else c :: rest

def afterBreaks? (s : List Char) : Option (List Char) :=
  (afterBreak? (skipBlanks s)).map skipBreaks

/-- The characters of a block up to its end. A backslash before a line break takes away the blanks
and line breaks that follow. -/
def readBlock (q : Char) : Nat → Read (List Char)
  | 0, _ => none
  | _ + 1, [] => none
  | n + 1, c :: rest =>
    match blockEnd? q (c :: rest) with
    | some last => some last
    | none =>
      match afterBreak? (c :: rest) with
      | some rest => (readBlock q n rest).map fun (cs, r) => ('\n' :: cs, r)
      | none =>
        if c = '\\' ∧ q = '"' then
          match afterBreaks? rest with
          | some rest => readBlock q n rest
          | none => do
            let (d, rest) ← readEscape rest
            let (cs, rest) ← readBlock q n rest
            return (d :: cs, rest)
        else if isPrintable c then (readBlock q n rest).map fun (cs, r) => (c :: cs, r)
        else none

def readBlockBody (q : Char) (s : List Char) : Option (List Char × List Char) :=
  readBlock q s.length ((afterBreak? s).getD s)

def readLineString : Read (List Char)
  | '"' :: rest => readBasic rest.length rest
  | '\'' :: rest => readLiteral rest
  | _ => none

def readString : Read (List Char)
  | '"' :: '"' :: '"' :: rest => readBlockBody '"' rest
  | '\'' :: '\'' :: '\'' :: rest => readBlockBody '\'' rest
  | s => readLineString s

def maxDepth : Nat := 79

def isBareKeyChar (c : Char) : Bool := c.isAlphanum || c = '-' || c = '_'

def readName (s : List Char) : Option (String × List Char) :=
  match s.span isBareKeyChar with
  | ([], _) => (readLineString s).map fun (cs, r) => (String.ofList cs, r)
  | (cs, rest) => some (String.ofList cs, rest)

def readNames : Nat → Read (List String)
  | 0, _ => none
  | n + 1, s => do
    let (name, rest) ← readName (skipBlanks s)
    match skipBlanks rest with
    | '.' :: rest => (readNames n rest).map fun (names, r) => (name :: names, r)
    | rest => return ([name], rest)

def readKey : Read (List String) := readNames maxDepth

def moreDigits (isDigit : Char → Bool) : List Char → List Char × List Char
  | [] => ([], [])
  | '_' :: c :: rest =>
    if isDigit c then
      let (cs, r) := moreDigits isDigit rest
      (c :: cs, r)
    else ([], '_' :: c :: rest)
  | c :: rest =>
    if isDigit c then
      let (cs, r) := moreDigits isDigit rest
      (c :: cs, r)
    else ([], c :: rest)

def readDigits (isDigit : Char → Bool) : Read (List Char)
  | [] => none
  | c :: rest =>
    if isDigit c then
      let (cs, r) := moreDigits isDigit rest
      some (c :: cs, r)
    else none

def readWhole : Read (List Char)
  | '0' :: rest => some (['0'], rest)
  | s => readDigits Char.isDigit s

def readSign : List Char → List Char × List Char
  | '+' :: rest => (['+'], rest)
  | '-' :: rest => (['-'], rest)
  | rest => ([], rest)

def signed (sign : List Char) (n : Nat) : Int := if sign = ['-'] then -n else n

def integerLimit : Nat := 0x8000000000000000

def readDecimal (s : List Char) : Option (Value × List Char) := do
  let (sign, rest) := readSign s
  let (digits, rest) ← readWhole rest
  let n := signed sign (Text.decimal digits)
  if -integerLimit ≤ n ∧ n < integerLimit then return (.integer n, rest) else none

def readInBase (base : Nat) (s : List Char) : Option (Value × List Char) := do
  let (digits, rest) ← readDigits (fun c => (Text.digitValue? c).any (· < base)) s
  let n := Text.numberOf base digits
  if n < integerLimit then return (.integer n, rest) else none

def readInteger : Read Value
  | '0' :: 'x' :: rest => readInBase 16 rest
  | '0' :: 'o' :: rest => readInBase 8 rest
  | '0' :: 'b' :: rest => readInBase 2 rest
  | s => readDecimal s

def readFraction : Read (List Char)
  | '.' :: rest => readDigits Char.isDigit rest
  | _ => none

def readExponent : Read (List Char × List Char)
  | c :: rest =>
    if c = 'e' ∨ c = 'E' then
      let (sign, rest) := readSign rest
      (readDigits Char.isDigit rest).map fun (digits, r) => ((sign, digits), r)
    else none
  | [] => none

/-- The digits, taken as a whole number times a power of ten, are too great for eight bytes: they
round to `2 ^ 1024`. Powers far from that one are told by the number of digits. -/
def overflows (digits : List Char) (power : Int) : Bool :=
  let n := Text.decimal digits
  let magnitude := ((digits.dropWhile (· = '0')).length : Int) + power
  let bound := (Nat.pow 2 54 - 1) * Nat.pow 2 970
  if n = 0 ∨ magnitude < 300 then false
  else if 320 < magnitude then true
  else if 0 ≤ power then bound ≤ n * Nat.pow 10 power.toNat
  else bound * Nat.pow 10 (-power).toNat ≤ n

def taken (s rest : List Char) : String := String.ofList (s.take (s.length - rest.length))

def readDecimalFloat (s : List Char) : Option (Value × List Char) := do
  let (sign, rest) := readSign s
  let (whole, rest) ← readWhole rest
  let (fraction, rest) := (readFraction rest).getD ([], rest)
  let ((expSign, exponent), rest') := (readExponent rest).getD (([], []), rest)
  let power := signed expSign (Text.decimal exponent) - fraction.length
  if fraction.isEmpty && exponent.isEmpty then none
  else if sign ≠ ['-'] && overflows (whole ++ fraction) power then none
  else return (.float (taken s rest'), rest')

def readFloat (s : List Char) : Option (Value × List Char) :=
  match (readSign s).2 with
  | 'i' :: 'n' :: 'f' :: rest => some (.float (taken s rest), rest)
  | 'n' :: 'a' :: 'n' :: rest => some (.float (taken s rest), rest)
  | _ => readDecimalFloat s

def readField (width least most : Nat) (s : List Char) : Option (Nat × List Char) :=
  let digits := s.take width
  let n := Text.decimal digits
  if digits.length = width ∧ digits.all Char.isDigit ∧ least ≤ n ∧ n ≤ most then
    some (n, s.drop width)
  else none

def afterDate? (s : List Char) : Option (List Char) := do
  let (year, s) ← readField 4 0 9999 s
  let ((), s) ← expect ['-'] s
  let (month, s) ← readField 2 1 12 s
  let ((), s) ← expect ['-'] s
  let (_, s) ← readField 2 1 (Time.daysInMonth year month) s
  return s

def afterDecimals : List Char → List Char
  | '.' :: c :: rest => if c.isDigit then rest.dropWhile Char.isDigit else '.' :: c :: rest
  | rest => rest

def afterTime? (s : List Char) : Option (List Char) := do
  let (_, s) ← readField 2 0 23 s
  let ((), s) ← expect [':'] s
  let (_, s) ← readField 2 0 59 s
  let ((), s) ← expect [':'] s
  let (_, s) ← readField 2 0 60 s
  return afterDecimals s

def afterOffset? : List Char → Option (List Char)
  | c :: rest =>
    if c = 'Z' ∨ c = 'z' then some rest
    else if c = '+' ∨ c = '-' then do
      let (_, s) ← readField 2 0 23 rest
      let ((), s) ← expect [':'] s
      let (_, s) ← readField 2 0 59 s
      return s
    else none
  | [] => none

def afterDateTime? : List Char → Option (List Char)
  | c :: rest =>
    if c = 'T' ∨ c = 't' ∨ c = ' ' then
      (afterTime? rest).map fun rest => (afterOffset? rest).getD rest
    else none
  | [] => none

def readDateTime (s : List Char) : Option (Value × List Char) :=
  let rest? := match afterDate? s with
    | some rest => some ((afterDateTime? rest).getD rest)
    | none => afterTime? s
  rest?.map fun rest => (.dateTime (taken s rest), rest)

def readScalarValue : Read Value
  | 't' :: 'r' :: 'u' :: 'e' :: rest => some (.boolean true, rest)
  | 'f' :: 'a' :: 'l' :: 's' :: 'e' :: rest => some (.boolean false, rest)
  | c :: rest =>
    if c = '"' ∨ c = '\'' then (readString (c :: rest)).map fun (cs, r) => (.string (.ofList cs), r)
    else
      readDateTime (c :: rest) <|> readFloat (c :: rest) <|> readInteger (c :: rest)
  | [] => none

mutual

def readValue : Nat → Nat → Read Value
  | 0, _, _ => none
  | n + 1, depth, s =>
    match s, depth with
    | '[' :: _, 0 => none
    | '\x7b' :: _, 0 => none
    | '[' :: rest, depth + 1 =>
      match skipFiller false rest with
      | ']' :: rest => some (.array [], rest)
      | rest => (readItems n depth rest).map fun (items, r) => (.array items, r)
    | '\x7b' :: rest, depth + 1 =>
      match skipBlanks rest with
      | '\x7d' :: rest => some (.table [], rest)
      | rest => do
        let (pairs, rest) ← readPairs n depth rest
        return (← ofPairs? pairs, rest)
    | s, _ => readScalarValue s

def readItems : Nat → Nat → Read (List Value)
  | 0, _, _ => none
  | n + 1, depth, s => do
    let (v, rest) ← readValue n depth s
    match skipFiller false rest with
    | ',' :: rest =>
      match skipFiller false rest with
      | ']' :: rest => return ([v], rest)
      | rest => (readItems n depth rest).map fun (items, r) => (v :: items, r)
    | ']' :: rest => return ([v], rest)
    | _ => none

def readPairs : Nat → Nat → Read (List (List String × Value))
  | 0, _, _ => none
  | n + 1, depth, s => do
    let (names, rest) ← readKey s
    let ((), rest) ← expect ['='] rest
    let (v, rest) ← readValue n depth (skipBlanks rest)
    match skipBlanks rest with
    | ',' :: rest => (readPairs n depth rest).map fun (pairs, r) => ((names, v) :: pairs, r)
    | '\x7d' :: rest => return ([(names, v)], rest)
    | _ => none

end

def readHeader : Read Statement
  | '[' :: rest => do
    let (names, rest) ← readKey rest
    let ((), rest) ← expect [']', ']'] rest
    return (.row names, rest)
  | rest => do
    let (names, rest) ← readKey rest
    let ((), rest) ← expect [']'] rest
    return (.table names, rest)

def readPair (s : List Char) : Option (Statement × List Char) := do
  let (names, rest) ← readKey s
  let ((), rest) ← expect ['='] rest
  let (v, rest) ← readValue (2 * rest.length + 2) maxDepth (skipBlanks rest)
  return (.pair names v, rest)

def readStatement : Read Statement
  | '[' :: rest => readHeader rest
  | s => readPair s

/-- The lines of a text. Every line takes at least one character, so the length of the text bounds
their number. -/
def readStatements : Nat → List Char → Option (List Statement)
  | 0, _ => none
  | n + 1, s =>
    match skipBlanks s with
    | [] => some []
    | s =>
      match afterLine? s with
      | some rest => readStatements n rest
      | none => do
        let (first, rest) ← readStatement s
        let rest ← afterLine? rest
        return first :: (← readStatements n rest)

def dropMark : List Char → List Char
  | '\ufeff' :: rest => rest
  | s => s

def read? (text : String) : Option (List (String × Value)) :=
  let s := dropMark text.toList
  (readStatements (s.length + 1) s).bind ofStatements?

end Wordhoard.Toml

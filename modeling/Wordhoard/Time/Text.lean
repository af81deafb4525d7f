import Wordhoard.Text.Blank
import Wordhoard.Text.Digits
import Wordhoard.Text.Read
import Wordhoard.Time.Instant

/-! Instants as text. They are written as RFC 3339 times in Universal Time with the fewest of 0, 3,
6 or 9 decimals that are exact. The reader takes more: offsets, blanks between the parts, parts
with a single digit, any number of decimals. -/
namespace Wordhoard.Time

open Text (Read expect isBlank)

def padded (width n : Nat) : String :=
  let digits := toString n
  String.ofList (List.replicate (width - digits.length) '0') ++ digits

def yearText (year : Int) : String :=
  if year < 0 then "-" ++ padded 4 year.natAbs
  else if 9999 < year then "+" ++ padded 4 year.natAbs
  else padded 4 year.natAbs

def Date.text (d : Date) : String :=
  yearText d.year ++ "-" ++ padded 2 d.month ++ "-" ++ padded 2 d.day

def fractionText (nano : Nat) : String :=
  if nano = 0 then ""
  else if nano % 1000000 = 0 then "." ++ padded 3 (nano / 1000000)
  else if nano % 1000 = 0 then "." ++ padded 6 (nano / 1000)
  else "." ++ padded 9 nano

def Instant.text (t : Instant) : String :=
  t.date.text ++ "T" ++ padded 2 t.hour ++ ":" ++ padded 2 t.minute ++ ":" ++
    padded 2 t.secondOfMinute ++ fractionText (t.nano % billion) ++ "Z"

def skipBlanks (s : List Char) : List Char := s.dropWhile isBlank

def readNumber (width : Nat) : Read Nat := fun s =>
  let digits := (skipBlanks s |>.take width).takeWhile Char.isDigit
  if digits.isEmpty then none
  else some (Text.decimal digits, (skipBlanks s).drop digits.length)

/-- A year has at most four digits unless it has a sign. -/
def readYear : Read Int := fun s =>
  let long (rest : List Char) : Option (Nat × List Char) :=
    match rest.span Char.isDigit with
    | ([], _) => none
    | (digits, rest) => some (Text.decimal digits, rest)
  match skipBlanks s with
  | '-' :: rest => (long rest).map fun (n, r) => (-(n : Int), r)
  | '+' :: rest => (long rest).map fun (n, r) => ((n : Int), r)
  | rest => (readNumber 4 rest).map fun (n, r) => ((n : Int), r)

def readMark (c : Char) : Read Unit := fun s => expect [c] (skipBlanks s)

/-- The nanoseconds that decimals stand for; those past the ninth are dropped. -/
def readFraction : Read Nat
  | '.' :: rest =>
    match rest.span Char.isDigit with
    | ([], _) => none
    | (digits, rest) =>
      let used := digits.take 9
      some (Text.decimal used * Nat.pow 10 (9 - used.length), rest)
  | rest => some (0, rest)

def readOffsetMinutes : Read Nat
  | a :: b :: rest =>
    match rest.dropWhile fun c => c = ':' || isBlank c with
    | c :: d :: rest =>
      if [a, b, c, d].all Char.isDigit && c.toNat < '6'.toNat then
        some (Text.decimal [a, b] * 60 + Text.decimal [c, d], rest)
      else none
    | _ => none
  | _ => none

def readOffset : Read Int := fun s =>
  let signed (sign : Int) (rest : List Char) :=
    (readOffsetMinutes rest).map fun (n, r) => (sign * n, r)
  match s with
  | 'Z' :: rest => some (0, rest)
  | 'z' :: rest => some (0, rest)
  | '+' :: rest => signed 1 rest
  | '-' :: rest => signed (-1) rest
  | '−' :: rest => signed (-1) rest
  | a :: b :: c :: rest =>
    if [a, b, c].map Char.toUpper = ['U', 'T', 'C'] then some (0, rest) else none
  | _ => none

def Instant.ofClock (date : Date) (hour minute second nano : Nat) (ahead : Int) : Instant :=
  let leap := second = 60
  let clock : Int := (hour * 3600 + minute * 60 + (if leap then 59 else second) : Nat)
  let total := date.dayNumber * 86400 + clock - ahead * 60
  ⟨total / 86400, (total % 86400).toNat, if leap then nano + billion else nano⟩

def readDateEnd : Read Unit
  | c :: rest => if c = 'T' || c = 't' || c = ' ' then some ((), rest) else none
  | [] => none

def readDate : Read Date := fun s => do
  let (year, s) ← readYear s
  let ((), s) ← readMark '-' s
  let (month, s) ← readNumber 2 s
  let ((), s) ← readMark '-' s
  let (day, s) ← readNumber 2 s
  return (⟨year, month, day⟩, s)

def Instant.readList (s : List Char) : Option Instant := do
  let (date, s) ← readDate s
  let ((), s) ← readDateEnd s
  let (hour, s) ← readNumber 2 s
  let ((), s) ← readMark ':' s
  let (minute, s) ← readNumber 2 s
  let ((), s) ← readMark ':' s
  let (second, s) ← readNumber 2 s
  let (nano, s) ← readFraction s
  let (ahead, s) ← readOffset (skipBlanks s)
  let t := Instant.ofClock date hour minute second nano ahead
  if date.isValid && Instant.firstDay ≤ date.dayNumber && date.dayNumber ≤ Instant.lastDay &&
      hour < 24 && minute < 60 && second ≤ 60 && ahead.natAbs < 1440 && t.isValid &&
      (skipBlanks s).isEmpty
  then some t else none

def Instant.read? (s : String) : Option Instant := readList s.toList

end Wordhoard.Time

/-! The Gregorian calendar, carried on before its introduction. Day 0 is the first of January 1970,
and year 0 is a leap year. -/
namespace Wordhoard.Time

structure Date where
  year : Int
  month : Nat
  day : Nat
  deriving DecidableEq, Repr

def isLeapYear (year : Int) : Bool :=
  year % 4 == 0 && (year % 100 != 0 || year % 400 == 0)

def daysInMonth (year : Int) (month : Nat) : Nat :=
  if month = 2 then (if isLeapYear year then 29 else 28)
  else if month ∈ [4, 6, 9, 11] then 30
  else 31

def daysBeforeMonth (year : Int) (month : Nat) : Nat :=
  ((List.range month).drop 1).foldr (fun m days => daysInMonth year m + days) 0

def yearStart (year : Int) : Int :=
  let y := year - 1
  365 * y + y / 4 - y / 100 + y / 400 - 719162

namespace Date

def isValid (d : Date) : Bool :=
  1 ≤ d.month && d.month ≤ 12 && 1 ≤ d.day && d.day ≤ daysInMonth d.year d.month

def dayNumber (d : Date) : Int := yearStart d.year + daysBeforeMonth d.year d.month + d.day - 1

def inYear (year : Int) : List Nat → Nat → Date
  | [], rest => ⟨year, 12, rest + 1⟩
  | month :: months, rest =>
    let length := daysInMonth year month
    if rest < length then ⟨year, month, rest + 1⟩ else inYear year months (rest - length)

/-- The year of a day. The mean length of a year gives it up to one. -/
def yearOf (n : Int) : Int :=
  let guess := (n + 719162) * 400 / 146097 + 1
  if n < yearStart guess then guess - 1
  else if n < yearStart (guess + 1) then guess
  else guess + 1

def ofDayNumber (n : Int) : Date :=
  let year := yearOf n
  inYear year [1, 2, 3, 4, 5, 6, 7, 8, 9, 10, 11, 12] (n - yearStart year).toNat

end Date

end Wordhoard.Time

import Wordhoard.Time.Calendar

/-! Instants of Universal Time, to the nanosecond. A leap second is told as a further second of its
minute: its nanoseconds go on from one billion. -/
namespace Wordhoard.Time

def billion : Nat := 1000000000

structure Instant where
  day : Int
  second : Nat
  nano : Nat
  deriving DecidableEq, Repr

namespace Instant

/-- The days that an instant may lie on: the years from -262143 to 262142. -/
def firstDay : Int := yearStart (-262143)

def lastDay : Int := yearStart 262143 - 1

def isValid (t : Instant) : Bool :=
  firstDay ≤ t.day && t.day ≤ lastDay && t.second < 86400 &&
    (t.nano < billion || (t.nano < 2 * billion && t.second % 60 == 59))

def before (a b : Instant) : Bool :=
  a.day < b.day || (a.day == b.day &&
    (a.second < b.second || (a.second == b.second && a.nano < b.nano)))

def atMost (a b : Instant) : Bool := !b.before a

/-- The seconds of the day from `b` to `a`, with a leap second counted when it lies between. -/
def clockSeconds (a b : Instant) : Int :=
  let seconds : Int := a.second - b.second
  if b.second < a.second ∧ billion ≤ b.nano then seconds + 1
  else if a.second < b.second ∧ billion ≤ a.nano then seconds - 1
  else seconds

def since (a b : Instant) : Int :=
  ((a.day - b.day) * 86400 + a.clockSeconds b) * billion + ((a.nano : Int) - b.nano)

/-- The whole days from `b` to `a`, cut towards zero. -/
def daysSince (a b : Instant) : Int := (a.since b).tdiv (86400 * billion)

def ofNanoseconds (n : Int) : Instant :=
  let seconds := n / billion
  ⟨seconds / 86400, (seconds % 86400).toNat, (n % billion).toNat⟩

def date (t : Instant) : Date := .ofDayNumber t.day

def hour (t : Instant) : Nat := t.second / 3600

def minute (t : Instant) : Nat := t.second / 60 % 60

/-- The second of the minute, which is sixty in a leap second. -/
def secondOfMinute (t : Instant) : Nat := t.second % 60 + t.nano / billion

end Instant

end Wordhoard.Time

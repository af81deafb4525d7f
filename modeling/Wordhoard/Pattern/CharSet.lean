import Wordhoard.Text.Blank
import Wordhoard.Text.Letter
import Wordhoard.Text.CaseFold

/-! Sets of characters, as a pattern writes them. -/
namespace Wordhoard.Pattern

inductive CharSet where
  | ranges (ranges : List (Nat × Nat))
  | complement (set : CharSet)
  | union (left right : CharSet)
  | inter (left right : CharSet)
  | anyCase (set : CharSet)
  | anyAsciiCase (set : CharSet)

namespace CharSet

def contains : CharSet → Char → Bool
  | ranges rs, c => Text.inRanges rs c
  | complement s, c => !s.contains c
  | union a b, c => a.contains c || b.contains c
  | inter a b, c => a.contains c && b.contains c
  | anyCase s, c => s.contains c || (Text.caseVariants c).any s.contains
  | anyAsciiCase s, c => s.contains c || s.contains c.toLower || s.contains c.toUpper

def none : CharSet := ranges []

def all : CharSet := complement none

def single (c : Char) : CharSet := ranges [(c.toNat, c.toNat)]

def range (first last : Char) : CharSet := ranges [(first.toNat, last.toNat)]

def ofList (cs : List Char) : CharSet := ranges (cs.map fun c => (c.toNat, c.toNat))

def diff (a b : CharSet) : CharSet := inter a (complement b)

def symmDiff (a b : CharSet) : CharSet := union (diff a b) (diff b a)

def blank : CharSet := ranges Text.blankRanges

def letter : CharSet := ranges Text.letterRanges

def numeral : CharSet := ranges Text.numeralRanges

def digit : CharSet := ranges Text.digitRanges

def wordChar : CharSet := ranges Text.wordRanges

def asciiDigit : CharSet := range '0' '9'

def asciiBlank : CharSet := ranges [(0x09, 0x0D), (0x20, 0x20)]

def asciiWordChar : CharSet :=
  union asciiDigit (union (range 'A' 'Z') (union (range 'a' 'z') (single '_')))

end CharSet

end Wordhoard.Pattern

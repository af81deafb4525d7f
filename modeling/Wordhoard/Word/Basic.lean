import Wordhoard.Word.TagSet
import Wordhoard.Time.Instant
import Wordhoard.Text.Blank

/-! Words and what is known of them. A definition says what a word is, and a word adds its reviews:
it counts once in a session, and the sessions before it stay counted. -/
namespace Wordhoard

/-- A run of a word's content. An optional piece may be left out when the word is used. -/
inductive Piece where
  | plain (text : String)
  | optional (text : String)
  deriving DecidableEq, Repr

def Piece.text : Piece → String
  | plain text => text
  | optional text => text

def Piece.isOptional : Piece → Bool
  | plain _ => false
  | optional _ => true

def contentText (content : List Piece) : String := String.join (content.map Piece.text)

structure Definition where
  content : List Piece
  description : String := ""
  tags : TagSet := {}
  deriving DecidableEq

def Definition.contentText (d : Definition) : String := Wordhoard.contentText d.content

def tagDelimiters : List Char := ['#', ';', '|', ',', '(', ')', '"', ':']

def isValidTag (tag : String) : Bool :=
  tag ≠ "" && tag.toList.all fun c => !Text.isBlank c && !tagDelimiters.contains c

def maxReviews : Nat := UInt32.size - 1

structure Word extends Definition where
  reviewCount : UInt32 := 0
  lastReviewed : Option Time.Instant := none
  reviewed : Bool := false
  deriving DecidableEq

namespace Word

def ofDefinition (d : Definition) : Word := { d with }

def nextCount (n : UInt32) : UInt32 := if n.toNat = maxReviews then n else n + 1

def review (w : Word) (now : Time.Instant) : Bool × Word :=
  if w.reviewed then (false, w)
  else
    (true, { w with reviewCount := nextCount w.reviewCount, lastReviewed := some now,
                    reviewed := true })

def resetSession (w : Word) : Word := { w with reviewed := false }

def redefine (w : Word) (d : Definition) : Word := { w with toDefinition := d }

def hasTag (w : Word) (tag : String) : Bool := w.tags.contains tag

def daysSinceReview (w : Word) (now : Time.Instant) : Option Int := w.lastReviewed.map now.daysSince

end Word

end Wordhoard

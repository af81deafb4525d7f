import Wordhoard.Time.Text
import Wordhoard.Word.TagSet
import Wordhoard.Markup.Basic

/-! How the parts of a report look: colours, cut and padded texts, and the age of a review. -/
namespace Wordhoard.Report

def wrapped (first last : String) (s : String) : String :=
  "\x1b[" ++ first ++ "m" ++ s ++ "\x1b[" ++ last ++ "m"

def dimmed (s : String) : String := wrapped "2" "0" s

def green (s : String) : String := wrapped "32" "39" s

def bold (s : String) : String := wrapped "1" "0" s

def styled (colors : Bool) (style : String → String) (s : String) : String :=
  if colors then style s else s

def truncate (s : String) (most : Nat) : String :=
  if most < s.length then String.ofList (s.toList.take (most - 3)) ++ "..." else s

def pad (s : String) (visible width : Nat) : String :=
  s ++ String.ofList (List.replicate (width - visible) ' ')

def column (width : Nat) (s : String) : String := pad s s.length width

def pieceText (colors : Bool) : Piece → String
  | .plain text => text
  | .optional text => styled colors dimmed ("(" ++ text ++ ")")

def contentText (colors : Bool) (content : List Piece) : String :=
  String.join (content.map (pieceText colors))

def tagsText (tags : TagSet) (most : Nat) : String :=
  truncate (" ".intercalate (tags.toList.map ("#" ++ ·))) most

def lastReviewedText (now : Time.Instant) : Option Time.Instant → String
  | none => "never"
  | some t =>
    let days := now.daysSince t
    if days ≤ 0 then "today"
    else if days = 1 then "1 day ago"
    else s!"{days} days ago"

def reviewedText (colors reviewed : Bool) : String :=
  if reviewed then styled colors green "✓" else ""

def exportName (now : Time.Instant) : String :=
  open Time in
  now.date.text ++ "T" ++ padded 2 now.hour ++ padded 2 now.minute ++
    padded 2 now.secondOfMinute ++ "Z.json"

end Wordhoard.Report

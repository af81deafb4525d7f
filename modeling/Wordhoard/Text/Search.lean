import Wordhoard.Text.Lowercase

/-! Search in texts. -/
namespace Wordhoard.Text

def occursIn (needle : List Char) : List Char → Bool
  | [] => needle.isEmpty
  | c :: rest => needle.isPrefixOf (c :: rest) || occursIn needle rest

def containsIgnoringCase (text needle : String) : Bool :=
  occursIn (lowercase needle).toList (lowercase text).toList

end Wordhoard.Text

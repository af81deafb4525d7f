/-! Readers take a value off the front of a text, and leave the rest. -/
namespace Wordhoard.Text

abbrev Read (α : Type) := List Char → Option (α × List Char)

def expect : List Char → Read Unit
  | [], s => some ((), s)
  | c :: cs, d :: s => if c = d then expect cs s else none
  | _ :: _, [] => none

end Wordhoard.Text

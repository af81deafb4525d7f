import Wordhoard.Text.Ranges

/-! The blank characters: Unicode's White_Space property, in every version since 6.3. -/
namespace Wordhoard.Text

def blankRanges : List (Nat × Nat) := [
    (0x9, 0xD), (0x20, 0x20), (0x85, 0x85), (0xA0, 0xA0), (0x1680, 0x1680), (0x2000, 0x200A),
    (0x2028, 0x2029), (0x202F, 0x202F), (0x205F, 0x205F), (0x3000, 0x3000)]

def isBlank (c : Char) : Bool := inRanges blankRanges c

def trimEnd (s : List Char) : List Char := (s.reverse.dropWhile isBlank).reverse

end Wordhoard.Text

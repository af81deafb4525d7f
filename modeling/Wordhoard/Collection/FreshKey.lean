import Wordhoard.Random
import Wordhoard.Text.Digits

/-! New keys. A key has 32 hexadecimal digits: the time, a version, a number that counts up, a
variant, and digits at random. So keys ascend in the order of their creation. -/
namespace Wordhoard

def hexDigits : Nat → Nat → List Char
  | 0, _ => []
  | width + 1, n => hexDigits width (n / 16) ++ [Text.digitChar (n % 16)]

def Random.nth (r : Random) : Nat → UInt32
  | 0 => r.draw.1
  | n + 1 => r.draw.2.nth n

def freshKey (milliseconds : Nat) (r : Random) (n : Nat) : String :=
  let high := hexDigits 3 (n / 0x10000000)
  let low := hexDigits 7 (n % 0x10000000)
  String.ofList (hexDigits 12 milliseconds ++ '7' :: high ++ '8' :: low ++
    hexDigits 8 (r.nth n).toNat)

end Wordhoard
